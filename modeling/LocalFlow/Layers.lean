import LocalFlow.Models
import LocalFlow.Library.Lookup
import LocalFlow.Library.Separated

/-! The layers of a `VariableResolver`: every dictionary is flattened to dotted names, and a later
name replaces an earlier one. -/
namespace LocalFlow
open Separated

namespace Json

/-- `result.update(other)`. -/
def update (dict other : Object) : Object :=
  other.foldl (fun dict entry => assign dict entry.1 entry.2) dict

end Json

/-- `f"{prefix}.{key}" if prefix else key`. -/
def pathOf (front key : String) : String := if front = "" then key else front ++ "." ++ key

mutual
/-- `_flatten(value, prefix)`, with the entries found so far. -/
def flattenInto (front : String) : Object → Object → Object
  | [], result => result
  | (key, item) :: rest, result =>
    flattenInto front rest
      (Json.update (Json.assign result (pathOf front key) item) (flattenItem (pathOf front key) item))

/-- `_flatten(item, path)` where the item is a dictionary. -/
def flattenItem (path : String) : Json → Object
  | .obj fields => flattenInto path fields []
  | _ => []
end

/-- `_flatten`. -/
def flatten (layer : Object) : Object := flattenInto "" layer []

/-- `self.values` of a resolver. -/
def layeredValues (layers : List Object) : Object :=
  layers.foldl (fun values layer => Json.update values (flatten layer)) []

namespace Json
variable {dict other : Object} {key name : String} {value : Json}

theorem keys_assign : (assign dict key value).map Prod.fst =
    if key ∈ dict.map Prod.fst then dict.map Prod.fst else dict.map Prod.fst ++ [key] := by
  unfold assign
  split
  · rw [List.map_map]
    refine List.map_congr_left (fun entry _ => ?_)
    simp only [Function.comp_apply]
    split
    · rename_i same
      exact same.symm
    · rfl
  · rw [List.map_append]
    rfl

theorem nodup_assign (unique : (dict.map Prod.fst).Nodup) :
    ((assign dict key value).map Prod.fst).Nodup := by
  rw [keys_assign]
  split
  · exact unique
  · rename_i fresh
    rw [List.nodup_append]
    refine ⟨unique, List.nodup_singleton _, fun a old b new same => fresh ?_⟩
    rw [List.mem_singleton.mp new] at same
    exact same ▸ old

theorem get?_replaced :
    get? (dict.map (fun entry => if entry.1 = key then (key, value) else entry)) name =
    if name = key then (get? dict name).map (fun _ => value) else get? dict name := by
  unfold get?
  induction dict with
  | nil => simp
  | cons entry rest ih =>
    rw [List.map_cons, Lookup.cons, Lookup.cons, ih]
    by_cases same : entry.1 = key
    · by_cases asked : name = key
      · simp [same, asked]
      · simp [same, asked]
    · by_cases asked : name = key
      · simp [same, asked, Ne.symm same]
      · simp [same, asked]

theorem get?_assign : get? (assign dict key value) name = if name = key then some value
    else get? dict name := by
  unfold assign
  split
  · rename_i known
    rw [get?_replaced]
    obtain ⟨old, found⟩ := Lookup.of_key known
    by_cases asked : name = key
    · rw [if_pos asked, if_pos asked, asked, get?, found]
      rfl
    · rw [if_neg asked, if_neg asked]
  · rename_i fresh
    rw [get?, List.lookup_append]
    by_cases asked : name = key
    · rw [if_pos asked, asked, Lookup.none_of_key fresh, Option.none_or]
      exact List.lookup_cons_self
    · rw [if_neg asked, Lookup.cons, if_neg asked, List.lookup_nil, Option.or_none]
      rfl

theorem nodup_update (unique : (dict.map Prod.fst).Nodup) :
    ((update dict other).map Prod.fst).Nodup := by
  unfold update
  induction other generalizing dict with
  | nil => exact unique
  | cons entry rest ih => exact ih (nodup_assign unique)

theorem get?_update (unique : (other.map Prod.fst).Nodup) :
    get? (update dict other) name = (get? other name).or (get? dict name) := by
  unfold update
  induction other generalizing dict with
  | nil => rfl
  | cons entry rest ih =>
    rw [List.map_cons, List.nodup_cons] at unique
    rw [List.foldl_cons, ih unique.2, get?_assign]
    by_cases same : name = entry.1
    · have later : get? rest name = none := Lookup.none_of_key (same ▸ unique.1)
      rw [later, if_pos same, same, get?, List.lookup_cons_self]
      rfl
    · have skipped : get? (entry :: rest) name = get? rest name := by
        rw [get?, Lookup.cons, if_neg same]
        rfl
      rw [if_neg same, skipped]

/-- `value[key]` of a dictionary that has the key. -/
def member (key : String) : Json → Option Json
  | .obj fields => get? fields key
  | _ => none

/-- What stands below a value under some keys in a row. -/
def descend : List String → Json → Option Json
  | [], value => some value
  | key :: keys, value => (value.member key).bind (descend keys)

theorem descend_snoc (keys : List String) (key : String) (value : Json) :
    descend (keys ++ [key]) value = (descend keys value).bind (member key) := by
  induction keys generalizing value with
  | nil => exact Option.bind_fun_some (value.member key)
  | cons first keys ih =>
    rw [List.cons_append, descend, descend, Option.bind_assoc]
    exact congrArg _ (funext ih)

mutual
/-- A dictionary has each key once, and its keys hold no dot. -/
def Keyed : Json → Prop
  | .obj fields => (fields.map Prod.fst).Nodup ∧ FieldsKeyed fields
  | _ => True

def FieldsKeyed : Object → Prop
  | [] => True
  | (key, item) :: rest => Solid '.' key ∧ item.Keyed ∧ FieldsKeyed rest
end

end Json

/-! ## What flattening makes of a value -/

section Flattening
open Json

/-- What a dotted name below `front` stands for in a value. -/
def under (front names : List String) (value : Json) : Option Json :=
  if front <+: names ∧ front ≠ names then value.descend (names.drop front.length) else none

theorem nodup_flattenInto (front : String) (fields result : Object)
    (unique : (result.map Prod.fst).Nodup) :
    ((flattenInto front fields result).map Prod.fst).Nodup := by
  induction fields generalizing result with
  | nil => exact unique
  | cons entry rest ih =>
    rw [flattenInto]
    exact ih _ (nodup_update (nodup_assign unique))

theorem nodup_flattenItem (path : String) (item : Json) :
    ((flattenItem path item).map Prod.fst).Nodup := by
  cases item <;> first
    | exact nodup_flattenInto _ _ _ List.nodup_nil
    | exact List.nodup_nil

/-- One entry of a dictionary, its own name and those below it. -/
theorem get?_entry {path : String} {item : Json} {result : Object} {name : String} :
    get? (update (assign result path item) (flattenItem path item)) name =
      (get? (flattenItem path item) name).or (if name = path then some item else get? result name) := by
  rw [get?_update (nodup_flattenItem path item), get?_assign]

/-- The parts of a dotted name. -/
structure Dotted (names : List String) : Prop where
  some_name : names ≠ []
  solid : ∀ part ∈ names, Solid '.' part

theorem Dotted.snoc {names : List String} {key : String} (dotted : ∀ part ∈ names, Solid '.' part)
    (solid : Solid '.' key) :
    Dotted (names ++ [key]) where
  some_name := by simp
  solid := by
    intro part member
    obtain old | new := List.mem_append.mp member
    · exact dotted part old
    · rw [List.mem_singleton.mp new]
      exact solid

theorem Dotted.join_eq {names others : List String} (dotted : Dotted names) (dotted' : Dotted others) :
    join '.' names = join '.' others ↔ names = others :=
  join_inj dotted.solid dotted.some_name dotted'.solid dotted'.some_name

theorem Dotted.empty : Dotted [""] := ⟨by simp, by simp [Solid]⟩

theorem Dotted.join_empty {names : List String} (dotted : Dotted names) :
    join '.' names = "" ↔ names = [""] := by
  have empty : join '.' [""] = "" := join_singleton ""
  constructor
  · intro same
    exact (dotted.join_eq .empty).mp (same.trans empty.symm)
  · rintro rfl
    exact empty

theorem pathOf_join {front : List String} (dotted : Dotted front) (some_front : front ≠ [""])
    (key : String) :
    pathOf (join '.' front) key = join '.' (front ++ [key]) := by
  rw [pathOf, if_neg (mt dotted.join_empty.mp some_front), join_snoc dotted.some_name]
  rfl

theorem under_append (front : List String) (key : String) (keys : List String) (value : Json) :
    under front (front ++ key :: keys) value = value.descend (key :: keys) := by
  rw [under, if_pos ⟨List.prefix_append _ _, by simp⟩, List.drop_left]

theorem under_none {front names : List String} (value : Json)
    (outside : ∀ key keys, names ≠ front ++ key :: keys) : under front names value = none := by
  rw [under, if_neg]
  rintro ⟨⟨rest, rfl⟩, other⟩
  cases rest with
  | nil => exact other (List.append_nil front).symm
  | cons key keys => exact outside key keys rfl

/-- A name below a dictionary is an entry's own, below an entry, or below the other entries. -/
theorem under_cons {front names : List String} {key : String} {item : Json} {rest : Object}
    (fresh : key ∉ rest.map Prod.fst) : under front names (.obj ((key, item) :: rest)) =
      (under front names (.obj rest)).or
        ((under (front ++ [key]) names item).or (if names = front ++ [key] then some item
          else none)) := by
  by_cases inside : ∃ first keys, names = front ++ first :: keys
  · obtain ⟨first, keys, rfl⟩ := inside
    rw [under_append, under_append, descend, descend, member, member, get?, get?, Lookup.cons]
    by_cases same : first = key
    · subst same
      rw [if_pos rfl, Lookup.none_of_key fresh, Option.bind_some, Option.bind_none, Option.none_or]
      cases keys with
      | nil =>
        rw [under_none item, Option.none_or, if_pos rfl]
        · rfl
        · intro other keys same
          have := congrArg List.length same
          simp at this
      | cons second keys =>
        have split : front ++ first :: second :: keys = front ++ [first] ++ second :: keys := by simp
        rw [split, under_append, if_neg (by simp), Option.or_none]
    · have outside : ∀ other keys', front ++ first :: keys ≠ front ++ [key] ++ other :: keys' := by
        intro other keys' equal
        rw [List.append_assoc] at equal
        exact same (List.cons.inj (List.append_cancel_left equal)).1
      have apart : front ++ first :: keys ≠ front ++ [key] := by
        intro equal
        exact same (List.cons.inj (List.append_cancel_left equal)).1
      rw [if_neg same, under_none item outside, if_neg apart, Option.none_or, Option.or_none]
  · have outside : ∀ first keys, names ≠ front ++ first :: keys :=
      fun first keys equal => inside ⟨first, keys, equal⟩
    have below : ∀ first keys, names ≠ front ++ [key] ++ first :: keys := by
      intro first keys equal
      rw [List.append_assoc] at equal
      exact outside key _ equal
    rw [under_none _ outside, under_none _ outside, under_none _ below, if_neg (outside key []),
      Option.none_or,
      Option.none_or]

theorem under_plain {front names : List String} {value : Json}
    (plain : ∀ key, value.member key = none) :
    under front names value = none := by
  rw [under]
  split
  · rename_i proper
    obtain ⟨⟨rest, rfl⟩, other⟩ := proper
    rw [List.drop_left]
    cases rest with
    | nil => exact absurd (List.append_nil front).symm other
    | cons key keys => rw [descend, plain, Option.bind_none]
  · rfl

mutual
/-- The names below a value stand for what the value has there. -/
theorem get?_flattenItem {front names : List String} (dotted : Dotted front) (some_front : front ≠ [""])
    (asked : Dotted names) : ∀ item : Json, item.Keyed →
      get? (flattenItem (join '.' front) item) (join '.' names) = under front names item
  | .obj fields, keyed => by
    rw [flattenItem, get?_flattenInto dotted some_front asked fields [] keyed.1 keyed.2]
    exact Option.or_none
  | .null, _ | .bool _, _ | .int _, _ | .float _, _ | .str _, _ | .arr _, _ => by
    rw [under_plain (fun _ => rfl)]
    rfl

theorem get?_flattenInto {front names : List String} (dotted : Dotted front) (some_front : front ≠ [""])
    (asked : Dotted names) : ∀ fields result :
    Object, (fields.map Prod.fst).Nodup → FieldsKeyed fields →
      get? (flattenInto (join '.' front) fields result) (join '.' names) =
        (under front names (.obj fields)).or (get? result (join '.' names))
  | [], result, _, _ => by
    rw [under_plain (fun _ => rfl)]
    rfl
  | (key, item) :: rest, result, unique, keyed => by
    rw [List.map_cons, List.nodup_cons] at unique
    have below : Dotted (front ++ [key]) := .snoc dotted.solid keyed.1
    have apart : front ++ [key] ≠ [""] := by
      intro same
      have := congrArg List.length same
      simp [dotted.some_name] at this
    rw [flattenInto, get?_flattenInto dotted some_front asked rest _ unique.2 keyed.2.2, get?_entry,
      pathOf_join dotted some_front, get?_flattenItem below apart asked item keyed.2.1,
        under_cons unique.1]
    by_cases own : names = front ++ [key]
    · simp [own]
    · have other := mt (asked.join_eq below).mp own
      rw [if_neg other, if_neg own, Option.or_none, Option.or_assoc]
end

end Flattening

/-! ## The definitions of a name -/

mutual
/-- The entries that define names of their own: those of the layer, and those below an empty key,
whose path stays empty. -/
def roots : Object → Object
  | [] => []
  | (key, item) :: rest => (key, item) :: (rootsBelow key item ++ roots rest)

def rootsBelow (key : String) : Json → Object
  | .obj fields => if key = "" then roots fields else []
  | _ => []
end

/-- What an entry defines a name as. -/
def definition (names : List String) (root : String × Json) : Option Json :=
  match names with
  | [] => none
  | name :: keys => if root.1 = name ∧ (name ≠ "" ∨ keys = []) then root.2.descend keys else none

/-- Every definition of a name, from the first layer to the last. -/
def definitions (layers : List Object) (names : List String) : List Json :=
  (layers.flatMap roots).filterMap (definition names)

section Definitions
open Json

/-- An entry under a key of its own defines that key and what stands below. -/
theorem definition_entry {key : String} (some_key : key ≠ "") (names : List String) (item : Json) :
    definition names (key, item) = (under [key] names item).or (if names = [key] then some item
      else none) := by
  cases names with
  | nil =>
    rw [under_none item (fun _ _ => by simp), Option.none_or, if_neg (by simp)]
    rfl
  | cons name keys =>
    rw [definition]
    by_cases same : key = name
    · subst same
      rw [if_pos ⟨rfl, .inl some_key⟩]
      cases keys with
      | nil =>
        rw [under_none item (fun _ _ => by simp), Option.none_or, if_pos rfl]
        rfl
      | cons first keys =>
        have below := under_append [key] first keys item
        rw [List.singleton_append] at below
        rw [below, if_neg (by simp), Option.or_none]
    · have outside : ∀ first rest, name :: keys ≠ [key] ++ first :: rest :=
        fun first rest equal => same (List.cons.inj equal).1.symm
      rw [if_neg (fun both => same both.1), under_none item outside,
        if_neg (fun equal => same (List.cons.inj equal).1.symm)]
      rfl

theorem rootsBelow_other {key : String} (some_key : key ≠ "") (item : Json) :
    rootsBelow key item = [] := by
  cases item <;> simp [rootsBelow, some_key]

theorem definition_empty (names : List String) (item : Json) :
    definition names ("", item) = if names = [""] then some item else none := by
  cases names with
  | nil => rfl
  | cons name keys =>
    rw [definition]
    by_cases same : name :: keys = [""]
    · obtain ⟨rfl, rfl⟩ := List.cons.inj same
      rfl
    · rw [if_neg same, if_neg]
      rintro ⟨rfl, wrong | empty⟩
      · exact wrong rfl
      · exact same (by rw [empty])

theorem getLast?_filterMap {α β : Type} (f : α → Option β) (first : α) (middle last : List α) :
    ((first :: (middle ++ last)).filterMap f).getLast? =
      (last.filterMap f).getLast?.or ((middle.filterMap f).getLast?.or (f first)) := by
  have one : ([first].filterMap f).getLast? = f first := by
    cases found : f first <;> simp [found]
  rw [← List.singleton_append, List.filterMap_append, List.filterMap_append, List.getLast?_append,
    List.getLast?_append, one, Option.or_assoc]

mutual
/-- Each name of a flattened layer is its last definition there. -/
theorem get?_flatten {names : List String} (asked : Dotted names) : ∀ fields result :
    Object, FieldsKeyed fields →
    get? (flattenInto "" fields result) (join '.' names) =
      ((roots fields).filterMap (definition names)).getLast?.or (get? result (join '.' names))
  | [], result, _ => rfl
  | (key, item) :: rest, result, keyed => by
    have path : pathOf "" key = key := rfl
    rw [flattenInto, get?_flatten asked rest _ keyed.2.2, get?_entry, path, roots, getLast?_filterMap]
    have own : join '.' names = key ↔ names = [key] := by
      have dotted : Dotted [key] := ⟨by simp, by simpa using keyed.1⟩
      rw [← asked.join_eq dotted, join_singleton]
    by_cases empty : key = ""
    · subst empty
      rw [get?_flattenEmpty asked item keyed.2.1, definition_empty]
      by_cases here : names = [""]
      · rw [if_pos here, if_pos (own.mpr here), Option.or_assoc, Option.or_assoc, Option.some_or]
      · rw [if_neg here, if_neg (mt own.mp here), Option.or_none, Option.or_assoc]
    · have single : Dotted [key] := ⟨by simp, by simpa using keyed.1⟩
      have below := get?_flattenItem single (by simpa using empty) asked item keyed.2.1
      rw [join_singleton] at below
      rw [below, rootsBelow_other empty, definition_entry empty]
      by_cases here : names = [key]
      · rw [if_pos here, if_pos (own.mpr here), List.filterMap_nil, List.getLast?_nil,
          Option.none_or, Option.or_assoc,
          Option.or_assoc, Option.some_or]
      · rw [if_neg here, if_neg (mt own.mp here), Option.or_none, Option.or_assoc]
        rfl

theorem get?_flattenEmpty {names : List String} (asked : Dotted names) : ∀ item : Json, item.Keyed →
    get? (flattenItem "" item) (join '.' names) =
    ((rootsBelow "" item).filterMap (definition names)).getLast?
  | .obj fields, keyed => by
    rw [flattenItem, get?_flatten asked fields [] keyed.2, rootsBelow, if_pos rfl]
    exact Option.or_none
  | .null, _ | .bool _, _ | .int _, _ | .float _, _ | .str _, _ | .arr _, _ => rfl
end

/-- The value of a dotted name is its last definition. -/
theorem get?_layeredValues {layers : List Object} (keyed : ∀ layer ∈ layers, FieldsKeyed layer)
    {names : List String}
    (asked : Dotted names) :
    get? (layeredValues layers) (join '.' names) = (definitions layers names).getLast? := by
  suffices folded : ∀ values : Object,
    get? (layers.foldl (fun values layer => update values (flatten layer)) values)
      (join '.' names) = (definitions layers names).getLast?.or (get? values (join '.' names)) by
    exact (folded []).trans Option.or_none
  unfold definitions
  induction layers with
  | nil => exact fun _ => rfl
  | cons layer layers ih =>
    intro values
    have flat := get?_flatten asked layer [] (keyed layer List.mem_cons_self)
    rw [List.foldl_cons, ih (fun other member => keyed other (List.mem_cons_of_mem _ member)),
      flatten, get?_update (nodup_flattenInto _ _ [] List.nodup_nil), flat, List.flatMap_cons,
        List.filterMap_append,
      List.getLast?_append, show get? ([] : Object) (join '.' names) = none from rfl,
        Option.or_none, Option.or_assoc]

/-- A key of a dictionary is defined where the dictionary is. -/
theorem definition_snoc {names : List String} (some_name : names ≠ [""] ∧ names ≠ []) (key : String)
    (root : String × Json) :
    definition (names ++ [key]) root = (definition names root).bind (member key) := by
  obtain ⟨name, keys, rfl⟩ := List.exists_cons_of_ne_nil some_name.2
  rw [List.cons_append, definition, definition]
  by_cases empty : name = ""
  · have some_key : keys ≠ [] := fun none => some_name.1 (by rw [empty, none])
    rw [if_neg, if_neg]
    · rfl
    · exact fun both => both.2.elim (absurd empty) (absurd · some_key)
    · exact fun both => both.2.elim (absurd empty) (by simp)
  · by_cases same : root.1 = name
    · rw [if_pos ⟨same, .inl empty⟩, if_pos ⟨same, .inl empty⟩, descend_snoc]
    · rw [if_neg (fun both => same both.1), if_neg (fun both => same both.1)]
      rfl

theorem definitions_snoc (layers : List Object) {names : List String}
    (some_name : names ≠ [""] ∧ names ≠ [])
    (key : String) : definitions layers (names ++ [key]) = (definitions layers names).filterMap
    (member key) := by
  rw [definitions, definitions, List.filterMap_filterMap]
  exact List.filterMap_congr (fun root _ => definition_snoc some_name key root)

end Definitions

/-- `${p}` and `${p.k}` agree. -/
def NamesAgree (layers : List Object) (name key : String) : Prop :=
  ∀ value, Json.get? (layeredValues layers) name = some value →
    Json.get? (layeredValues layers) (name ++ "." ++ key) = value.member key

theorem last_filterMap {α β : Type} {f : α → Option β} {given : List α} {last : α}
    (isLast : given.getLast? = some last) :
    (given.filterMap f).getLast? = f last ↔ f last ≠ none ∨ ∀ a ∈ given, f a = none := by
  obtain ⟨front, rfl⟩ := List.getLast?_eq_some_iff.mp isLast
  rw [List.filterMap_append, List.getLast?_append]
  cases found : f last with
  | some b => simp [found]
  | none =>
    have empty : ([last].filterMap f).getLast? = none := by simp [found]
    rw [empty, Option.none_or, List.getLast?_eq_none_iff, List.filterMap_eq_nil_iff]
    constructor
    · intro none
      refine .inr (fun a member => ?_)
      obtain old | new := List.mem_append.mp member
      · exact none a old
      · exact (List.mem_singleton.mp new) ▸ found
    · rintro (wrong | none) a member
      · exact absurd rfl wrong
      · exact none a (List.mem_append_left _ member)

/-- A name and a key agree exactly when the last definition of the name has the key or none does. -/
theorem dotted_names_agree_iff {layers : List Object} (keyed : ∀ layer ∈ layers, Json.FieldsKeyed layer)
    {name key : String} (some_name : name ≠ "") (solid : Solid '.' key) :
    NamesAgree layers name key ↔ ∀ last, (definitions layers (parts '.' name)).getLast? = some last →
      last.member key ≠ none ∨ ∀ value ∈ definitions layers (parts '.' name),
        value.member key = none := by
  have dotted : Dotted (parts '.' name) := ⟨parts_ne_nil name, parts_solid name⟩
  have other : parts '.' name ≠ [""] := by
    intro same
    have whole : join '.' (parts '.' name) = name := join_parts name
    rw [same, join_singleton] at whole
    exact some_name whole.symm
  have own := get?_layeredValues keyed dotted
  have below := get?_layeredValues keyed (Dotted.snoc dotted.solid solid)
  rw [join_snoc dotted.some_name, join_parts,
    definitions_snoc layers ⟨other, dotted.some_name⟩] at below
  rw [join_parts] at own
  unfold NamesAgree
  rw [own]
  refine forall₂_congr (fun last isLast => ?_)
  rw [← last_filterMap isLast, ← below]
  rfl

/-- Two layers of one dictionary each: `${a.x}` of the first and `${a.y}` of the second. -/
def oneKeyLayers : List Object := [[("a", .obj [("x", .int 1)])], [("a", .obj [("y", .int 2)])]]

theorem oneKeyLayers_keyed : ∀ layer ∈ oneKeyLayers, Json.FieldsKeyed layer := by
  intro layer member
  simp only [oneKeyLayers, List.mem_cons, List.not_mem_nil, or_false] at member
  obtain rfl | rfl := member <;> simp [Json.FieldsKeyed, Json.Keyed, Solid]

theorem dotted_names_agree_split : "a" ≠ "" ∧ Solid '.' "y" ∧ (NamesAgree oneKeyLayers "a" "y" ↔
    ∀ last, (definitions oneKeyLayers (parts '.' "a")).getLast? = some last →
      last.member "y" ≠ none ∨ ∀ value ∈ definitions oneKeyLayers (parts '.' "a"),
        value.member "y" = none) :=
  ⟨by decide, by decide, dotted_names_agree_iff oneKeyLayers_keyed (by decide) (by decide)⟩

/-- The second layer replaces `a`, and `${a.x}` is still known. -/
theorem stale_name :
    ∃ (layers : List Object) (name key : String), (∀ layer ∈ layers, Json.FieldsKeyed layer) ∧
    name ≠ "" ∧ Solid '.' key ∧ ¬ NamesAgree layers name key := by
  refine ⟨oneKeyLayers, "a", "x", oneKeyLayers_keyed, by decide, by decide, fun agrees => ?_⟩
  have same := agrees (.obj [("y", .int 2)]) rfl
  exact absurd (congrArg Option.isSome same) (by decide)

end LocalFlow
