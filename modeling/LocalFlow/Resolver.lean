import LocalFlow.Layers
import LocalFlow.Verification

/-! `VariableResolver` with its cache and its errors. What a call gives does not depend on the calls
before it, and it fails only on what is wrong with the references themselves, unless its own calls
would be nested deeper than the interpreter lets them. -/
namespace LocalFlow

/-- `VariableError`. -/
inductive VariableError where
  | cycle (names : List String)
  | unknown (name : String)
  | structured (name : String)

def VariableError.message : VariableError → String
  | .cycle names => "variable cycle: " ++ joinWith " -> " names
  | .unknown name => "unknown variable: " ++ name
  | .structured name => "structured variable cannot be embedded in text: " ++ name

/-- What a call raises: a `VariableError`, or the `RecursionError` of the interpreter. -/
inductive Failure where
  | variable (error : VariableError)
  | recursion

/-- A call reads and fills the cache and may raise. -/
abbrev Resolving := ExceptT Failure (StateM Object)

namespace Resolving

/-- A call inside of another, where `limit` more may be nested. -/
def nested {α : Type} (limit : Nat) (body : Nat → Resolving α) : Resolving α :=
  match limit with
  | 0 => throw .recursion
  | left + 1 => body left

/-- `replace`, the callback of the substitution. -/
def replace (variableOf : Nat → String → Resolving Json) (limit : Nat) (name : List Char) :
    Resolving (List Char) :=
  nested limit (fun left => do
    let resolved ← variableOf left (String.ofList name)
    if resolved.hashable then pure resolved.text.toList
      else throw (.variable (.structured (String.ofList name))))

mutual
/-- `resolve`, given how a variable is looked up. -/
def resolve (variableOf : Nat → String → Resolving Json) : Json → Nat → Resolving Json
  | .null, limit => nested limit (fun _ => pure .null)
  | .bool b, limit => nested limit (fun _ => pure (.bool b))
  | .int n, limit => nested limit (fun _ => pure (.int n))
  | .float repr, limit => nested limit (fun _ => pure (.float repr))
  | .str s, limit => nested limit (fun left =>
    match Values.wholeReference? s with
    | some name => variableOf left name
    | none => do
      let out ← variableName.substituteIn (replace variableOf left) s.toList.length s.toList
      pure (.str (String.ofList out)))
  | .arr items, limit => nested limit (fun left => do
    let out ← resolveItems variableOf items left
    pure (.arr out))
  | .obj fields, limit => nested limit (fun left => do
    let out ← resolveFields variableOf fields left
    pure (.obj out))

def resolveItems (variableOf : Nat → String → Resolving Json) : List Json → Nat → Resolving (List Json)
  | [], _ => pure []
  | item :: rest, limit => do
    let first ← resolve variableOf item limit
    let others ← resolveItems variableOf rest limit
    pure (first :: others)

def resolveFields (variableOf : Nat → String → Resolving Json) : Object → Nat → Resolving Object
  | [], _ => pure []
  | (key, value) :: rest, limit => do
    let first ← resolve variableOf value limit
    let others ← resolveFields variableOf rest limit
    pure ((key, first) :: others)
end

end Resolving

namespace VariableResolver
variable (resolver : VariableResolver)

/-- A resolver of named layers. -/
def ofLayers (layers : List (String × Object)) (deferred : List String) : VariableResolver where
  values := layeredValues (layers.map Prod.snd)
  deferred := deferred

/-- What `variable` does with a name that is not in the cache, given how the names of its value are
looked up. -/
def evaluate (inner : Nat → List String → String → Resolving Json) (stack : List String)
    (name : String) (left : Nat) :
    Resolving Json :=
  if name ∈ resolver.deferred then pure (.str (referenceTo name))
  else if name ∈ stack then throw (.variable (.cycle (stack ++ [name])))
  else
    match Json.get? resolver.values name with
    | none => throw (.variable (.unknown name))
    | some value => do
      let resolved ← Resolving.resolve (fun limit => inner limit (stack ++ [name])) value left
      modify (fun cache => Json.assign cache name resolved)
      pure resolved

def lookUp (inner : Nat → List String → String → Resolving Json) (stack : List String)
    (name : String) (left : Nat) :
    Resolving Json := do
  let cache ← get
  match Json.get? cache name with
  | some value => pure value
  | none => resolver.evaluate inner stack name left

/-- `variable` with the rounds that are left, of which each takes one of the calls that may be
nested. -/
def variableIn : Nat → Nat → List String → String → Resolving Json
  | 0, _, _, _ => throw .recursion
  | rounds + 1, limit, stack, name =>
    Resolving.nested limit (resolver.lookUp (variableIn rounds) stack name)

/-- `variable`, where `limit` more calls of `variable`, `resolve` and `replace` may be nested. -/
def variableFrom (limit : Nat) (stack : List String) (name : String) : Resolving Json :=
  resolver.variableIn limit limit stack name

/-- `resolve(value, stack)`. -/
def resolveFrom (limit : Nat) (stack : List String) (value : Json) : Resolving Json :=
  Resolving.resolve (fun left => resolver.variableIn limit left stack) value limit

end VariableResolver

/-- A call of the resolver's two methods. -/
inductive ResolverCall where
  | lookUp (name : String) (stack : List String)
  | resolve (value : Json) (stack : List String)

namespace VariableResolver
variable (resolver : VariableResolver)

def call (limit : Nat) : ResolverCall → Resolving Json
  | .lookUp name stack => resolver.variableFrom limit stack name
  | .resolve value stack => resolver.resolveFrom limit stack value

/-- The cache that some calls in a row leave, whether they raise or not. Each comes with its own
limit. -/
def after (calls : List (Nat × ResolverCall)) (cache : Object) : Object :=
  calls.foldl (fun cache entry => (resolver.call entry.1 entry.2 cache).2) cache

/-- What `resolve(value)` gives after some calls on the same resolver. -/
def answer (limit : Nat) (calls : List (Nat × ResolverCall)) (value : Json) : Except Failure Json :=
  (resolver.resolveFrom limit [] value (resolver.after calls [])).1

end VariableResolver

/-! ## Resolving without a cache and a limit -/

section Values
variable {m : Type → Type} [Monad m]

def replaceIn (variableOf : String → m Json) (refuse : String → m (List Char)) (name : List Char) :
    m (List Char) := do
  let resolved ← variableOf (String.ofList name)
  if resolved.hashable then pure resolved.text.toList else refuse (String.ofList name)

mutual
/-- What a value resolves to, given what a variable is and what one inside a text becomes. -/
def resolveIn (variableOf : String → m Json) (replace : List Char → m (List Char)) : Json → m Json
  | .null => pure .null
  | .bool b => pure (.bool b)
  | .int n => pure (.int n)
  | .float repr => pure (.float repr)
  | .str s =>
    match Values.wholeReference? s with
    | some name => variableOf name
    | none => do
      let out ← variableName.substituteIn replace s.toList.length s.toList
      pure (.str (String.ofList out))
  | .arr items => do
    let out ← resolveItemsIn variableOf replace items
    pure (.arr out)
  | .obj fields => do
    let out ← resolveFieldsIn variableOf replace fields
    pure (.obj out)

def resolveItemsIn (variableOf : String → m Json) (replace : List Char → m (List Char)) :
    List Json → m (List Json)
  | [] => pure []
  | item :: rest => do
    let first ← resolveIn variableOf replace item
    let others ← resolveItemsIn variableOf replace rest
    pure (first :: others)

def resolveFieldsIn (variableOf : String → m Json) (replace : List Char → m (List Char)) :
    Object → m Object
  | [] => pure []
  | (key, value) :: rest => do
    let first ← resolveIn variableOf replace value
    let others ← resolveFieldsIn variableOf replace rest
    pure ((key, first) :: others)
end

end Values

namespace Json

mutual
/-- The value's strings refer to the name. -/
def Mentions (name : String) : Json → Prop
  | .str s => variableName.Mentions name.toList s.toList
  | .arr items => ItemsMention name items
  | .obj fields => FieldsMention name fields
  | _ => False

def ItemsMention (name : String) : List Json → Prop
  | [] => False
  | item :: rest => item.Mentions name ∨ ItemsMention name rest

def FieldsMention (name : String) : Object → Prop
  | [] => False
  | (_, value) :: rest => value.Mentions name ∨ FieldsMention name rest
end

mutual
/-- One of the value's strings refers to the name within longer text. -/
def Embeds (name : String) : Json → Prop
  | .str s => Values.wholeReference? s = none ∧ variableName.Mentions name.toList s.toList
  | .arr items => ItemsEmbed name items
  | .obj fields => FieldsEmbed name fields
  | _ => False

def ItemsEmbed (name : String) : List Json → Prop
  | [] => False
  | item :: rest => item.Embeds name ∨ ItemsEmbed name rest

def FieldsEmbed (name : String) : Object → Prop
  | [] => False
  | (_, value) :: rest => value.Embeds name ∨ FieldsEmbed name rest
end

end Json

namespace Json

mutual
theorem Embeds.mentions {name : String} : ∀ {value : Json}, value.Embeds name → value.Mentions name
  | .str _, embeds => embeds.2
  | .arr _, embeds => itemsEmbed_mention embeds
  | .obj _, embeds => fieldsEmbed_mention embeds

theorem itemsEmbed_mention {name : String} :
    ∀ {items : List Json}, ItemsEmbed name items → ItemsMention name items
  | _ :: _, embeds => embeds.imp Embeds.mentions itemsEmbed_mention

theorem fieldsEmbed_mention {name : String} :
    ∀ {fields : Object}, FieldsEmbed name fields → FieldsMention name fields
  | _ :: _, embeds => embeds.imp Embeds.mentions fieldsEmbed_mention
end

end Json

/-! ## What resolving a value does with its names -/

section Resolution
open References

theorem mentions_whole {s name other : String} (whole : Values.wholeReference? s = some name) :
    variableName.Mentions other.toList s.toList ↔ other = name := by
  have begins : variableName.Begins name.toList [] s.toList := Values.wholeReference?_iff.mp whole
  constructor
  · intro mentions
    obtain same | later := begins.mentions_after (by decide) (by decide) variableName_closes mentions
    · exact String.toList_inj.mp same
    · obtain ⟨front, after, empty, _⟩ := later
      simp [spelled] at empty
  · rintro rfl
    exact begins.mentions

variable {m n : Type → Type} [Monad m] [Monad n] {T : ∀ α : Type, m α → n α → Prop}
  {variableOf : String → m Json} {variableOf' : String → n Json}
  {replace : List Char → m (List Char)} {replace' : List Char → n (List Char)}

mutual
/-- Related lookups of a value's names give related resolutions of it. -/
theorem resolveIn_lifts (lifts : Lifts m n T) : ∀ value : Json,
    (∀ name, value.Mentions name → T Json (variableOf name) (variableOf' name)) →
    (∀ name, value.Embeds name → T (List Char) (replace name.toList) (replace' name.toList)) →
    T Json (resolveIn variableOf replace value) (resolveIn variableOf' replace' value)
  | .null, _, _ | .bool _, _, _ | .int _, _, _ | .float _, _, _ => lifts.pure _
  | .str s, whole, partly => by
    rw [resolveIn, resolveIn]
    cases found : Values.wholeReference? s with
    | some name => exact whole name ((mentions_whole found).mpr rfl)
    | none =>
      refine lifts.map (substituteIn_lifts lifts (fun name mentions => ?_)) _
      have put := partly (String.ofList name) ⟨found, by rwa [String.toList_ofList]⟩
      rwa [String.toList_ofList] at put
  | .arr items, whole, partly => lifts.map (resolveItemsIn_lifts lifts items whole partly) _
  | .obj fields, whole, partly => lifts.map (resolveFieldsIn_lifts lifts fields whole partly) _

theorem resolveItemsIn_lifts (lifts : Lifts m n T) : ∀ items : List Json,
    (∀ name, Json.ItemsMention name items → T Json (variableOf name) (variableOf' name)) →
    (∀ name, Json.ItemsEmbed name items → T (List Char) (replace name.toList) (replace' name.toList)) →
    T (List Json) (resolveItemsIn variableOf replace items) (resolveItemsIn variableOf' replace' items)
  | [], _, _ => lifts.pure _
  | item :: rest, whole, partly =>
    lifts.map₂ (resolveIn_lifts lifts item (fun name mentions => whole name (.inl mentions))
        (fun name embeds => partly name (.inl embeds)))
      (resolveItemsIn_lifts lifts rest (fun name mentions => whole name (.inr mentions))
        (fun name embeds => partly name (.inr embeds))) _

theorem resolveFieldsIn_lifts (lifts : Lifts m n T) : ∀ fields : Object,
    (∀ name, Json.FieldsMention name fields → T Json (variableOf name) (variableOf' name)) →
    (∀ name, Json.FieldsEmbed name fields →
      T (List Char) (replace name.toList) (replace' name.toList)) →
    T Object (resolveFieldsIn variableOf replace fields) (resolveFieldsIn variableOf' replace' fields)
  | [], _, _ => lifts.pure _
  | (_, value) :: rest, whole, partly =>
    lifts.map₂ (resolveIn_lifts lifts value (fun name mentions => whole name (.inl mentions))
        (fun name embeds => partly name (.inl embeds)))
      (resolveFieldsIn_lifts lifts rest (fun name mentions => whole name (.inr mentions))
        (fun name embeds => partly name (.inr embeds))) _
end

mutual
/-- Without a cache and without messages, resolving is `resolveWith`. -/
theorem resolveIn_option (known : String → Option Json) : ∀ value : Json,
    resolveIn known (embedded known) value = value.resolveWith known
  | .null | .bool _ | .int _ | .float _ => rfl
  | .str s => by
    rw [resolveIn, Json.resolveWith]
    cases Values.wholeReference? s with
    | some name => rfl
    | none =>
      dsimp only
      rw [substituteIn_option (Nat.le_refl _)]
      cases variableName.substitute (embedded known) s.toList.length s.toList <;> rfl
  | .arr items => by
    rw [resolveIn, Json.resolveWith, resolveItemsIn_option known items]
    cases Json.resolveItemsWith known items <;> rfl
  | .obj fields => by
    rw [resolveIn, Json.resolveWith, resolveFieldsIn_option known fields]
    cases Json.resolveFieldsWith known fields <;> rfl

theorem resolveItemsIn_option (known : String → Option Json) : ∀ items : List Json,
    resolveItemsIn known (embedded known) items = Json.resolveItemsWith known items
  | [] => rfl
  | item :: rest => by
    rw [resolveItemsIn, Json.resolveItemsWith, resolveIn_option known item,
      resolveItemsIn_option known rest]
    rfl

theorem resolveFieldsIn_option (known : String → Option Json) : ∀ fields : Object,
    resolveFieldsIn known (embedded known) fields = Json.resolveFieldsWith known fields
  | [] => rfl
  | (key, value) :: rest => by
    rw [resolveFieldsIn, Json.resolveFieldsWith, resolveIn_option known value,
      resolveFieldsIn_option known rest]
    rfl
end

theorem embedded_some {known : String → Option Json} {name : String} {put : List Char}
    (put_in : embedded known name.toList = some put) :
    ∃ a, known name = some a ∧ a.hashable = true := by
  obtain ⟨a, found, shown⟩ := Option.bind_eq_some_iff.mp put_in
  rw [String.ofList_toList] at found
  cases plain : a.hashable with
  | true => exact ⟨a, found, plain⟩
  | false =>
    rw [plain] at shown
    cases shown

/-- What a resolved value needed of its names. -/
structure Provided (known : String → Option Json) (mentions embeds : String → Prop) : Prop where
  whole : ∀ name, mentions name → ∃ a, known name = some a
  partly : ∀ name, embeds name → ∃ a, known name = some a ∧ a.hashable = true

theorem Provided.or {known : String → Option Json} {mentions embeds mentions' embeds' : String → Prop}
    (first : Provided known mentions embeds) (rest : Provided known mentions' embeds') :
    Provided known (fun name => mentions name ∨ mentions' name)
    (fun name => embeds name ∨ embeds' name) where
  whole name here := here.elim (first.whole name) (rest.whole name)
  partly name here := here.elim (first.partly name) (rest.partly name)

theorem Provided.none {known : String → Option Json} :
    Provided known (fun _ => False) (fun _ => False) where
  whole _ := False.elim
  partly _ := False.elim

mutual
/-- A value resolves only where all its names do. -/
theorem provided_resolve {known : String → Option Json} : ∀ {value result : Json},
    value.resolveWith known = some result → Provided known (value.Mentions ·) (value.Embeds ·)
  | .null, _, _ | .bool _, _, _ | .int _, _, _ | .float _, _, _ => .none
  | .str s, result, done => by
    rw [Json.resolveWith] at done
    cases found : Values.wholeReference? s with
    | some name =>
      rw [found] at done
      refine ⟨fun other mentions => ⟨result, ?_⟩, fun other embeds => ?_⟩
      · rw [(mentions_whole found).mp mentions]
        exact done
      · rw [Json.Embeds, found] at embeds
        cases embeds.1
    | none =>
      rw [found] at done
      obtain ⟨out, filled, _⟩ := Option.map_eq_some_iff.mp done
      have fills := (fills_iff_mentions (by decide) (by decide) variableName_closes s.toList).mp
        ⟨out, substitute_fills variableName_closes filled⟩
      refine ⟨fun name mentions => ?_, fun name embeds => ?_⟩
      · obtain ⟨put, put_in⟩ := fills name.toList mentions
        obtain ⟨a, isKnown, _⟩ := embedded_some put_in
        exact ⟨a, isKnown⟩
      · obtain ⟨put, put_in⟩ := fills name.toList embeds.2
        exact embedded_some put_in
  | .arr items, result, done => by
    rw [Json.resolveWith] at done
    obtain ⟨out, filled, _⟩ := Option.map_eq_some_iff.mp done
    exact provided_items filled
  | .obj fields, result, done => by
    rw [Json.resolveWith] at done
    obtain ⟨out, filled, _⟩ := Option.map_eq_some_iff.mp done
    exact provided_fields filled

theorem provided_items {known : String → Option Json} : ∀ {items out : List Json},
    Json.resolveItemsWith known items = some out →
      Provided known (Json.ItemsMention · items) (Json.ItemsEmbed · items)
  | [], _, _ => .none
  | item :: rest, out, done => by
    obtain ⟨first, one, done⟩ := Option.bind_eq_some_iff.mp done
    obtain ⟨others, more, _⟩ := Option.bind_eq_some_iff.mp done
    exact (provided_resolve one).or (provided_items more)

theorem provided_fields {known : String → Option Json} : ∀ {fields out : Object},
    Json.resolveFieldsWith known fields = some out →
      Provided known (Json.FieldsMention · fields) (Json.FieldsEmbed · fields)
  | [], _, _ => .none
  | (_, value) :: rest, out, done => by
    obtain ⟨first, one, done⟩ := Option.bind_eq_some_iff.mp done
    obtain ⟨others, more, _⟩ := Option.bind_eq_some_iff.mp done
    exact (provided_resolve one).or (provided_fields more)
end

/-- Only the names a value refers to matter. -/
theorem resolveWith_congr {known other : String → Option Json} {value : Json}
    (same : ∀ name, value.Mentions name → known name = other name) :
    value.resolveWith known = value.resolveWith other := by
  have lifts : Lifts Option Option (fun _ x y => x = y) := by
    constructor
    · exact fun _ => rfl
    · rintro _ _ x _ f g rfl equal
      exact congrArg (x >>= ·) (funext equal)
  rw [← resolveIn_option, ← resolveIn_option]
  refine resolveIn_lifts lifts value same (fun name embeds => ?_)
  rw [embedded, embedded, String.ofList_toList, same name embeds.mentions]

end Resolution

/-! ## What the references of a resolver say -/

namespace VariableResolver
variable (resolver : VariableResolver)

/-- A variable whose value refers to another name. -/
def Refers (name other : String) : Prop :=
  name ∉ resolver.deferred ∧ ∃ value, Json.get? resolver.values name = some value ∧ value.Mentions other

/-- A variable that resolves to a list or a dictionary. -/
inductive Structured : String → Prop where
  | value {name : String} {value : Json} : name ∉ resolver.deferred →
      Json.get? resolver.values name = some value →
      value.hashable = false → Structured name
  | reference {name other text : String} : name ∉ resolver.deferred →
      Json.get? resolver.values name = some (.str text) → Values.wholeReference? text = some other →
      Structured other → Structured name

/-- A name that a value refers to, or that the variables it refers to refer to. -/
def Reaches (value : Json) (name : String) : Prop :=
  ∃ first, value.Mentions first ∧ Relation.ReflTransGen resolver.Refers first name

/-- Nothing is wrong with the references of a value, followed up to deferred names. -/
structure Sound (value : Json) : Prop where
  known : ∀ name, resolver.Reaches value name → name ∉ resolver.deferred →
    Json.get? resolver.values name ≠ none
  acyclic : ∀ name, resolver.Reaches value name → ¬ Relation.TransGen resolver.Refers name name
  plain : ∀ name, value.Embeds name → ¬ resolver.Structured name
  plainBelow : ∀ name, resolver.Reaches value name → name ∉ resolver.deferred →
    ∀ below, Json.get? resolver.values name = some below → ∀ other, below.Embeds other →
      ¬ resolver.Structured other

/-- What a variable stands for. -/
inductive Means : String → Json → Prop where
  | deferred {name : String} : name ∈ resolver.deferred → Means name (.str (referenceTo name))
  | known {name : String} {value result : Json} {lookup : String → Option Json} : name ∉
      resolver.deferred →
      Json.get? resolver.values name = some value →
      (∀ other a, value.Mentions other → lookup other = some a → Means other a) →
      value.resolveWith lookup = some result → Means name result

section Meaning
variable {resolver} {name other : String} {a b : Json}

/-- A variable stands for one thing. -/
theorem Means.unique (means : resolver.Means name a) (again : resolver.Means name b) : a = b := by
  induction means generalizing b with
  | deferred held =>
    cases again with
    | deferred _ => rfl
    | known free => exact absurd held free
  | @known name value result lookup free found inner resolved ih =>
    cases again with
    | deferred held => exact absurd held free
    | @known _ value' _ lookup' _ found' inner' resolved' =>
      rw [found] at found'
      cases found'
      have same : ∀ other, value.Mentions other → lookup other = lookup' other := by
        intro other mentions
        obtain ⟨a, isA⟩ := (provided_resolve resolved).whole other mentions
        obtain ⟨b, isB⟩ := (provided_resolve resolved').whole other mentions
        rw [isA, isB, ih other a mentions isA (inner' other b mentions isB)]
      rw [resolveWith_congr same, resolved'] at resolved
      exact (Option.some.inj resolved).symm

/-- Below a variable that stands for something every variable does. -/
theorem Means.next (means : resolver.Means name a) (refers : resolver.Refers name other) :
    ∃ b, resolver.Means other b := by
  obtain ⟨free, value, found, mentions⟩ := refers
  cases means with
  | deferred held => exact absurd held free
  | known _ found' inner resolved =>
    rw [found] at found'
    cases found'
    obtain ⟨b, isB⟩ := (provided_resolve resolved).whole other mentions
    exact ⟨b, inner other b mentions isB⟩

theorem Means.reaches (means : resolver.Means name a)
    (reaches : Relation.ReflTransGen resolver.Refers name other) :
    ∃ b, resolver.Means other b := by
  induction reaches with
  | refl => exact ⟨a, means⟩
  | tail _ refers ih =>
    obtain ⟨b, isB⟩ := ih
    exact isB.next refers

/-- References from such a variable come to an end. -/
theorem Means.acc (means : resolver.Means name a) :
    Acc (fun below above => resolver.Refers above below) name := by
  induction means with
  | deferred held => exact ⟨_, fun _ refers => absurd held refers.1⟩
  | known free found inner resolved ih =>
    refine ⟨_, fun other refers => ?_⟩
    obtain ⟨_, value', found', mentions⟩ := refers
    rw [found] at found'
    cases found'
    obtain ⟨b, isB⟩ := (provided_resolve resolved).whole other mentions
    exact ih other b mentions isB

theorem Means.acyclic (means : resolver.Means name a) :
    ¬ Relation.TransGen resolver.Refers name name := by
  have ends := means.acc
  clear means
  induction ends with
  | intro name _ ih =>
    intro round
    obtain ⟨next, first, back⟩ := Relation.TransGen.head'_iff.mp round
    exact ih next first (Relation.TransGen.tail' back first)

theorem structured_known {value : Json} (free : name ∉ resolver.deferred)
    (found : Json.get? resolver.values name = some value) :
    resolver.Structured name ↔ value.hashable = false ∨
      ∃ text other, value = .str text ∧ Values.wholeReference? text = some other ∧
        resolver.Structured other := by
  constructor
  · intro structured
    cases structured with
    | value _ found' bulky =>
      rw [found] at found'
      cases found'
      exact .inl bulky
    | reference _ found' whole below =>
      rw [found] at found'
      cases found'
      exact .inr ⟨_, _, rfl, whole, below⟩
  · rintro (bulky | ⟨text, other, rfl, whole, below⟩)
    · exact .value free found bulky
    · exact .reference free found whole below

/-- A variable resolves to a list or a dictionary exactly when its references lead to one. -/
theorem Means.structured_iff (means : resolver.Means name a) :
    resolver.Structured name ↔ a.hashable = false := by
  induction means with
  | @deferred name held =>
    refine iff_of_false (fun structured => ?_) (nomatch ·)
    cases structured with
    | value free => exact free held
    | reference free => exact free held
  | @known name value result lookup free found inner resolved ih =>
    rw [structured_known free found]
    cases value with
    | null | bool _ | int _ | float _ =>
      cases resolved
      simp [Json.hashable]
    | str text =>
      rw [Json.resolveWith] at resolved
      cases whole : Values.wholeReference? text with
      | some other =>
        rw [whole] at resolved
        rw [← ih other result ((mentions_whole whole).mpr rfl) resolved]
        simp [Json.hashable, whole]
      | none =>
        rw [whole] at resolved
        obtain ⟨out, _, rfl⟩ := Option.map_eq_some_iff.mp resolved
        simp [Json.hashable, whole]
    | arr items =>
      obtain ⟨out, _, rfl⟩ := Option.map_eq_some_iff.mp resolved
      simp [Json.hashable]
    | obj fields =>
      obtain ⟨out, _, rfl⟩ := Option.map_eq_some_iff.mp resolved
      simp [Json.hashable]

open Classical in
/-- What a variable stands for, if anything. -/
noncomputable def meaning (resolver : VariableResolver) (name : String) : Option Json :=
  if means : ∃ a, resolver.Means name a then some means.choose else none

theorem meaning_iff : resolver.meaning name = some a ↔ resolver.Means name a := by
  unfold meaning
  constructor
  · intro found
    split at found
    · rename_i means
      cases found
      exact means.choose_spec
    · cases found
  · intro means
    have some_meaning : ∃ a, resolver.Means name a := ⟨a, means⟩
    rw [dif_pos some_meaning, some_meaning.choose_spec.unique means]

theorem means_known {value : Json} (free : name ∉ resolver.deferred)
    (found : Json.get? resolver.values name = some value) :
    resolver.Means name a ↔ value.resolveWith resolver.meaning = some a := by
  constructor
  · intro means
    cases means with
    | deferred held => exact absurd held free
    | @known _ value' _ lookup _ found' inner resolved =>
      rw [found] at found'
      cases found'
      rw [← resolved]
      refine resolveWith_congr (fun other mentions => ?_)
      obtain ⟨b, isB⟩ := (provided_resolve resolved).whole other mentions
      rw [isB, meaning_iff]
      exact inner other b mentions isB
  · intro resolved
    exact .known free found (fun other b _ isB => meaning_iff.mp isB) resolved

end Meaning

/-! ## Nested calls -/

/-- So many calls are nested in each other, from a call on. -/
inductive Nests : ResolverCall → Nat → Prop where
  | call (call : ResolverCall) : Nests call 1
  | item {items : List Json} {item : Json} {stack : List String} {n : Nat} (member : item ∈ items)
      (inner : Nests (.resolve item stack) n) : Nests (.resolve (.arr items) stack) (n + 1)
  | field {fields : Object} {key : String} {value : Json} {stack : List String} {n : Nat}
      (member : (key, value) ∈ fields)
      (inner : Nests (.resolve value stack) n) : Nests (.resolve (.obj fields) stack) (n + 1)
  | whole {s name : String} {stack : List String} {n : Nat}
      (isWhole : Values.wholeReference? s = some name)
      (inner : Nests (.lookUp name stack) n) : Nests (.resolve (.str s) stack) (n + 1)
  -- the callback of the substitution stands between
  | part {s name : String} {stack : List String} {n : Nat} (embeds : (Json.str s).Embeds name)
      (inner : Nests (.lookUp name stack) n) : Nests (.resolve (.str s) stack) (n + 2)
  | value {name : String} {value : Json} {stack : List String} {n : Nat} (fresh : name ∉ stack)
      (found : Json.get? resolver.values name = some value)
        (inner : Nests (.resolve value (stack ++ [name])) n) :
      Nests (.lookUp name stack) (n + 1)

/-- More calls are nested from a call on than the interpreter lets nest. -/
def Overflows (call : ResolverCall) (limit : Nat) : Prop := ∃ n, limit < n ∧ resolver.Nests call n

/-- The variables that are not on the stack. -/
def free (stack : List String) : Nat :=
  ((resolver.values.map Prod.fst).filter (fun name => name ∉ stack)).length

mutual
/-- How deep the calls for a value alone are nested. -/
def nesting : Json → Nat
  | .arr items => itemsNesting items + 1
  | .obj fields => fieldsNesting fields + 1
  | _ => 2

def itemsNesting : List Json → Nat
  | [] => 0
  | item :: rest => max (nesting item) (itemsNesting rest)

def fieldsNesting : Object → Nat
  | [] => 0
  | (_, value) :: rest => max (nesting value) (fieldsNesting rest)
end

/-- The most calls that can be nested for a value: those for it alone and those for each variable. -/
def bound (stack : List String) (value : Json) : Nat :=
  nesting value + resolver.free stack * (fieldsNesting resolver.values + 1) + 1

section Bounds
variable {resolver} {stack : List String} {name : String} {value : Json}

theorem free_push (found : Json.get? resolver.values name = some value) (fresh : name ∉ stack) :
    resolver.free (stack ++ [name]) < resolver.free stack := by
  have split : (resolver.values.map Prod.fst).filter (fun other => other ∉ stack ++ [name]) =
      ((resolver.values.map Prod.fst).filter (fun other => other ∉ stack)).filter
        (fun other => other ≠ name) := by
    rw [List.filter_filter]
    refine List.filter_congr (fun other _ => ?_)
    simp [and_comm]
  rw [free, free, split]
  apply List.length_filter_lt_length_iff_exists.mpr
  exact ⟨name, List.mem_filter.mpr ⟨Lookup.mem_keys found, by simpa using fresh⟩, by simp⟩

theorem nesting_str (s : String) : nesting (.str s) = 2 := by simp [nesting]

theorem nesting_item {items : List Json} {item : Json} (member : item ∈ items) :
    nesting item ≤ itemsNesting items := by
  induction items with
  | nil => cases member
  | cons first rest ih =>
    rw [itemsNesting]
    rcases List.mem_cons.mp member with rfl | member
    · exact Nat.le_max_left _ _
    · exact (ih member).trans (Nat.le_max_right _ _)

theorem nesting_field {fields : Object} {key : String} (member : (key, value) ∈ fields) :
    nesting value ≤ fieldsNesting fields := by
  induction fields with
  | nil => cases member
  | cons first rest ih =>
    obtain ⟨other, item⟩ := first
    rw [fieldsNesting]
    rcases List.mem_cons.mp member with same | member
    · cases same
      exact Nat.le_max_left _ _
    · exact (ih member).trans (Nat.le_max_right _ _)

/-- A name is on the stack once, so that only so many calls are nested. -/
theorem nests_le {call : ResolverCall} {n : Nat} (nests : resolver.Nests call n) :
    match call with
    | .lookUp _ stack => n ≤ resolver.free stack * (fieldsNesting resolver.values + 1) + 1
    | .resolve value stack => n ≤ resolver.bound stack value := by
  induction nests with
  | call call =>
    cases call with
    | lookUp => exact Nat.le_add_left _ _
    | resolve => exact Nat.le_add_left _ _
  | item member _ ih =>
    have below := nesting_item member
    dsimp only [bound] at ih ⊢
    rw [nesting]
    omega
  | field member _ ih =>
    have below := nesting_field member
    dsimp only [bound] at ih ⊢
    rw [nesting]
    omega
  | @whole s _ _ _ _ _ ih =>
    have alone := nesting_str s
    dsimp only [bound] at ih ⊢
    omega
  | @part s _ _ _ _ _ ih =>
    have alone := nesting_str s
    dsimp only [bound] at ih ⊢
    omega
  | value fresh found _ ih =>
    have below := nesting_field (Lookup.mem found)
    have fewer := free_push found fresh
    dsimp only [bound] at ih ⊢
    have widths := Nat.mul_le_mul_right (fieldsNesting resolver.values + 1) fewer
    rw [Nat.succ_mul] at widths
    omega

theorem Overflows.lt {limit : Nat} (overflows : resolver.Overflows (.resolve value stack) limit) :
    limit < resolver.bound stack value := by
  obtain ⟨n, more, nests⟩ := overflows
  have below : n ≤ resolver.bound stack value := nests_le nests
  omega

end Bounds

/-! ## Runs -/

/-- Every cached value is what its variable stands for. -/
def Honest (cache : Object) : Prop := ∀ name a, Json.get? cache name = some a → resolver.Means name a

end VariableResolver

/-- A computation from a cache. -/
def Resolving.run {α : Type} (x : Resolving α) (cache : Object) : Except Failure α × Object := x cache

theorem Resolving.run_bind {α β : Type} (x : Resolving α) (f : α → Resolving β) (cache : Object) :
    run (x >>= f) cache = (match run x cache with
      | (.ok a, next) => run (f a) next
      | (.error error, next) => (.error error, next)) := by
  change (match x cache with | (out, next) => ExceptT.bindCont f out next) = _
  unfold run
  rcases x cache with ⟨_ | _, next⟩ <;> rfl

namespace VariableResolver
variable (resolver : VariableResolver)

/-- From an honest cache the computation leaves an honest cache and gives what `P` says, unless it raises a
`RecursionError`, for which there is a ground. -/
def Yields (ground : Prop) {α : Type} (x : Resolving α) (P : Except VariableError α → Prop) : Prop :=
  ∀ cache, resolver.Honest cache → resolver.Honest (Resolving.run x cache).2 ∧
    ((Resolving.run x cache).1 = .error .recursion ∧ ground ∨
      ∃ out, (Resolving.run x cache).1 = out.mapError .variable ∧ P out)

section Runs
variable {resolver} {α β : Type} {x : Resolving α} {f : α → Resolving β}
  {P : Except VariableError α → Prop}
  {Q : Except VariableError β → Prop} {ground ground' : Prop}

theorem honest_empty : resolver.Honest [] := fun _ _ found => nomatch found

theorem Honest.assign {cache : Object} {name : String} {a : Json} (honest : resolver.Honest cache)
    (means : resolver.Means name a) : resolver.Honest (Json.assign cache name a) := by
  intro other b found
  rw [Json.get?_assign] at found
  split at found
  · rename_i same
    cases found
    exact same ▸ means
  · exact honest other b found

theorem Yields.imp {P' : Except VariableError α → Prop} (yields : resolver.Yields ground x P)
    (wider : ground → ground') (weaker : ∀ out, P out → P' out) : resolver.Yields ground' x P' := by
  intro cache honest
  obtain ⟨kept, ⟨ends, why⟩ | ⟨out, ran, holds⟩⟩ := yields cache honest
  · exact ⟨kept, .inl ⟨ends, wider why⟩⟩
  · exact ⟨kept, .inr ⟨out, ran, weaker out holds⟩⟩

theorem yields_pure {a : α} (holds : P (.ok a)) : resolver.Yields ground (pure a : Resolving α) P :=
  fun _ honest => ⟨honest, .inr ⟨.ok a, rfl, holds⟩⟩

theorem yields_throw {error : VariableError} (holds : P (.error error)) :
    resolver.Yields ground (throw (.variable error) : Resolving α) P :=
  fun _ honest => ⟨honest, .inr ⟨.error error, rfl, holds⟩⟩

theorem yields_recursion (why : ground) : resolver.Yields ground (throw .recursion : Resolving α) P :=
  fun _ honest => ⟨honest, .inl ⟨rfl, why⟩⟩

theorem Yields.bind (first : resolver.Yields ground x P)
    (second : ∀ a, P (.ok a) → resolver.Yields ground (f a) Q)
    (raised : ∀ error, P (.error error) → Q (.error error)) : resolver.Yields ground (x >>= f) Q := by
  intro cache honest
  obtain ⟨kept, result⟩ := first cache honest
  rw [Resolving.run_bind]
  generalize Resolving.run x cache = done at kept result
  obtain ⟨result', next⟩ := done
  rcases result with ⟨ends, why⟩ | ⟨out, ran, holds⟩
  · dsimp only at ends
    subst ends
    exact ⟨kept, .inl ⟨rfl, why⟩⟩
  · dsimp only at ran
    subst ran
    cases out with
    | error error => exact ⟨kept, .inr ⟨.error error, rfl, raised error holds⟩⟩
    | ok a => exact second a holds next kept

/-- From honest caches the computation has one outcome. -/
abbrev Settles (resolver : VariableResolver) (ground : Prop) (x : Resolving α)
    (out : Except VariableError α) : Prop :=
  resolver.Yields ground x (· = out)

/-- What a computation gives is what the pure one gives. -/
def Computes (resolver : VariableResolver) (ground : Prop) {α : Type} (x : Resolving α)
    (y : Option α) : Prop :=
  resolver.Yields ground x (fun out => ∀ a, out = .ok a → y = some a)

/-- A relation to pure computations that sequencing keeps, and that a `RecursionError` with a ground
never leaves. -/
structure Bounded (n : Type → Type) [Monad n] (T : Prop → ∀ α : Type, Resolving α → n α → Prop) :
    Prop where
  lifts : ∀ ground, Lifts Resolving n (T ground)
  mono : ∀ {ground ground' : Prop} {α : Type} {x : Resolving α} {y : n α}, (ground → ground') →
    T ground α x y → T ground' α x y
  recursion : ∀ {ground : Prop} {α : Type} {y : n α}, ground → T ground α (throw .recursion) y

theorem bounded_settles :
    Bounded (Except VariableError) (fun ground _ x out => resolver.Settles ground x out) where
  lifts ground := by
    constructor
    · exact fun a => yields_pure rfl
    · intro α β x out f g first second
      refine first.bind (Q := (· = out >>= g)) ?_ ?_
      · rintro a rfl
        exact second a
      · rintro error rfl
        rfl
  mono wider settles := settles.imp wider (fun _ same => same)
  recursion := yields_recursion

theorem bounded_computes : Bounded Option (fun ground _ x y => resolver.Computes ground x y) where
  lifts ground := by
    constructor
    · exact fun a => yields_pure (fun b same => by cases same; rfl)
    · intro α β x y f g first second
      refine first.bind ?_ ?_
      · intro a done
        rw [done a rfl]
        exact second a
      · exact fun error _ => nofun
  mono wider computes := computes.imp wider (fun _ holds => holds)
  recursion := yields_recursion

namespace Bounded
variable {n : Type → Type} [Monad n] {T : Prop → ∀ α : Type, Resolving α → n α → Prop}
  {stack : List String}
  {variableOf : Nat → String → Resolving Json} {variableOf' : String → n Json}
  {replace' : List Char → n (List Char)}

theorem nested {limit : Nat} {body : Nat → Resolving α} {y : n α} (bounded : Bounded n T)
    (ends : limit = 0 → ground)
    (inside : ∀ left, limit = left + 1 → T ground α (body left) y) :
    T ground α (Resolving.nested limit body) y := by
  cases limit with
  | zero => exact bounded.recursion (ends rfl)
  | succ left => exact inside left rfl

/-- The first call alone is one too many. -/
theorem overflows_zero {call : ResolverCall} {limit : Nat} (ends : limit = 0) :
    resolver.Overflows call limit :=
  ⟨1, by omega, .call call⟩

mutual
/-- Related lookups of a value's names give related resolutions of it. -/
theorem resolve (bounded : Bounded n T) : ∀ (value : Json) (limit : Nat),
    (∀ left < limit, ∀ name, value.Mentions name →
      T (resolver.Overflows (.lookUp name stack) left) Json (variableOf left name) (variableOf' name)) →
    (∀ left < limit, ∀ name, value.Embeds name →
      T (∃ k, left < k + 1 ∧ resolver.Nests (.lookUp name stack) k) (List Char)
      (Resolving.replace variableOf left name.toList) (replace' name.toList)) →
    T (resolver.Overflows (.resolve value stack) limit) Json (Resolving.resolve variableOf value limit)
      (resolveIn variableOf' replace' value)
  | .null, _, _, _ | .bool _, _, _, _ | .int _, _, _, _ | .float _, _, _, _ =>
    bounded.nested overflows_zero (fun _ _ => (bounded.lifts _).pure _)
  | .str s, limit, whole, partly => by
    rw [Resolving.resolve, resolveIn]
    refine bounded.nested overflows_zero (fun left isLimit => ?_)
    cases found : Values.wholeReference? s with
    | some name =>
      refine bounded.mono ?_ (whole left (by omega) name ((mentions_whole found).mpr rfl))
      rintro ⟨k, more, nests⟩
      exact ⟨k + 1, by omega, .whole found nests⟩
    | none =>
      refine (bounded.lifts _).map
        (References.substituteIn_lifts (bounded.lifts _) (fun name mentions => ?_)) _
      have embeds : (Json.str s).Embeds (String.ofList name) := ⟨found, by rwa [String.toList_ofList]⟩
      have put := partly left (by omega) (String.ofList name) embeds
      rw [String.toList_ofList] at put
      refine bounded.mono ?_ put
      rintro ⟨k, more, nests⟩
      exact ⟨k + 2, by omega, .part embeds nests⟩
  | .arr items, limit, whole, partly => by
    rw [Resolving.resolve, resolveIn]
    refine bounded.nested overflows_zero (fun left isLimit => ?_)
    refine (bounded.lifts _).map (bounded.mono ?_ (bounded.resolveItems items left
      (fun fewer lower => whole fewer (by omega)) (fun fewer lower => partly fewer (by omega)))) _
    rintro ⟨item, member, k, more, nests⟩
    exact ⟨k + 1, by omega, .item member nests⟩
  | .obj fields, limit, whole, partly => by
    rw [Resolving.resolve, resolveIn]
    refine bounded.nested overflows_zero (fun left isLimit => ?_)
    refine (bounded.lifts _).map (bounded.mono ?_ (bounded.resolveFields fields left
      (fun fewer lower => whole fewer (by omega)) (fun fewer lower => partly fewer (by omega)))) _
    rintro ⟨key, value, member, k, more, nests⟩
    exact ⟨k + 1, by omega, .field member nests⟩

theorem resolveItems (bounded : Bounded n T) : ∀ (items : List Json) (limit : Nat),
    (∀ left < limit, ∀ name, Json.ItemsMention name items →
      T (resolver.Overflows (.lookUp name stack) left) Json (variableOf left name) (variableOf' name)) →
    (∀ left < limit, ∀ name, Json.ItemsEmbed name items →
      T (∃ k, left < k + 1 ∧ resolver.Nests (.lookUp name stack) k) (List Char)
        (Resolving.replace variableOf left name.toList) (replace' name.toList)) →
    T (∃ item ∈ items, resolver.Overflows (.resolve item stack) limit) (List Json)
      (Resolving.resolveItems variableOf items limit) (resolveItemsIn variableOf' replace' items)
  | [], _, _, _ => (bounded.lifts _).pure _
  | item :: rest, limit, whole, partly => by
    refine (bounded.lifts _).map₂ (bounded.mono ?_ (bounded.resolve item limit
        (fun left lower name mentions => whole left lower name (.inl mentions))
        (fun left lower name embeds => partly left lower name (.inl embeds))))
      (bounded.mono ?_ (bounded.resolveItems rest limit
        (fun left lower name mentions => whole left lower name (.inr mentions))
        (fun left lower name embeds => partly left lower name (.inr embeds)))) _
    · exact fun overflows => ⟨item, List.mem_cons_self, overflows⟩
    · rintro ⟨other, member, overflows⟩
      exact ⟨other, List.mem_cons_of_mem _ member, overflows⟩

theorem resolveFields (bounded : Bounded n T) : ∀ (fields : Object) (limit : Nat),
    (∀ left < limit, ∀ name, Json.FieldsMention name fields →
      T (resolver.Overflows (.lookUp name stack) left) Json (variableOf left name) (variableOf' name)) →
    (∀ left < limit, ∀ name, Json.FieldsEmbed name fields →
      T (∃ k, left < k + 1 ∧ resolver.Nests (.lookUp name stack) k) (List Char)
        (Resolving.replace variableOf left name.toList) (replace' name.toList)) →
    T (∃ key value, (key, value) ∈ fields ∧ resolver.Overflows (.resolve value stack) limit) Object
      (Resolving.resolveFields variableOf fields limit) (resolveFieldsIn variableOf' replace' fields)
  | [], _, _, _ => (bounded.lifts _).pure _
  | (key, value) :: rest, limit, whole, partly => by
    refine (bounded.lifts _).map₂ (bounded.mono ?_ (bounded.resolve value limit
        (fun left lower name mentions => whole left lower name (.inl mentions))
        (fun left lower name embeds => partly left lower name (.inl embeds))))
      (bounded.mono ?_ (bounded.resolveFields rest limit
        (fun left lower name mentions => whole left lower name (.inr mentions))
        (fun left lower name embeds => partly left lower name (.inr embeds)))) _
    · exact fun overflows => ⟨key, value, List.mem_cons_self, overflows⟩
    · rintro ⟨other, item, member, overflows⟩
      exact ⟨other, item, List.mem_cons_of_mem _ member, overflows⟩
end

/-- The callback is one call more. -/
theorem replace {limit : Nat} {name : String} {shown : Json → n (List Char)} (bounded : Bounded n T)
    (looked : ∀ left < limit,
      T (resolver.Overflows (.lookUp name stack) left) Json (variableOf left name) (variableOf' name))
    (shows : ∀ ground a, T ground (List Char)
      (if a.hashable then pure a.text.toList else throw (.variable (.structured name))) (shown a)) :
    T (∃ k, limit < k + 1 ∧ resolver.Nests (.lookUp name stack) k) (List Char)
      (Resolving.replace variableOf limit name.toList) (variableOf' name >>= shown) := by
  rw [Resolving.replace, String.ofList_toList]
  refine bounded.nested (fun ends => ⟨1, by omega, .call _⟩) (fun left isLimit => ?_)
  refine (bounded.lifts _).bind (bounded.mono ?_ (looked left (by omega))) (shows _)
  rintro ⟨k, more, nests⟩
  exact ⟨k, by omega, nests⟩

end Bounded

theorem computes_replace {variableOf : Nat → String → Resolving Json} {known : String → Option Json}
    {limit : Nat}
    {stack : List String} {name : String} (computes : ∀ left < limit,
      resolver.Computes (resolver.Overflows (.lookUp name stack) left) (variableOf left name)
      (known name)) :
    resolver.Computes (∃ k, limit < k + 1 ∧ resolver.Nests (.lookUp name stack) k)
      (Resolving.replace variableOf limit name.toList) (embedded known name.toList) := by
  rw [embedded, String.ofList_toList]
  refine bounded_computes.replace computes (fun ground a => ?_)
  split
  · exact (bounded_computes.lifts ground).pure _
  · exact yields_throw nofun

theorem settles_replace {variableOf : Nat → String → Resolving Json}
    {outcome : String → Except VariableError Json}
    {limit : Nat} {stack : List String} {name : String} (settles : ∀ left < limit,
      resolver.Settles (resolver.Overflows (.lookUp name stack) left) (variableOf left name)
      (outcome name)) :
    resolver.Settles (∃ k, limit < k + 1 ∧ resolver.Nests (.lookUp name stack) k)
      (Resolving.replace variableOf limit name.toList)
      (replaceIn outcome (fun name => .error (.structured name)) name.toList) := by
  rw [replaceIn, String.ofList_toList]
  refine bounded_settles.replace settles (fun ground a => ?_)
  split
  · exact (bounded_settles.lifts ground).pure _
  · exact yields_throw rfl

/-! ### Any stack -/

theorem yields_lookUp {inner : Nat → List String → String → Resolving Json} {stack : List String}
    {name : String}
    {left : Nat} {P : Except VariableError Json → Prop} (hit : ∀ a, resolver.Means name a → P (.ok a))
    (miss : resolver.Yields ground (resolver.evaluate inner stack name left) P) :
    resolver.Yields ground (resolver.lookUp inner stack name left) P := by
  intro cache honest
  have run : Resolving.run (resolver.lookUp inner stack name left) cache = Resolving.run
    (match Json.get? cache name with
      | some value => (pure value : Resolving Json)
      | none => resolver.evaluate inner stack name left) cache := rfl
  rw [run]
  cases cached : Json.get? cache name with
  | some a => exact ⟨honest, .inr ⟨.ok a, rfl, hit a (honest name a cached)⟩⟩
  | none => exact miss cache honest

theorem yields_store {name : String} {a : Json} {P : Except VariableError Json → Prop}
    (means : resolver.Means name a)
    (holds : P (.ok a)) : resolver.Yields ground (do
      modify (fun cache => Json.assign cache name a)
      pure a : Resolving Json) P :=
  fun _ honest => ⟨honest.assign means, .inr ⟨.ok a, rfl, holds⟩⟩

/-- The value of a variable is resolved one call further in. -/
theorem overflows_value {stack : List String} {name : String} {value : Json} {left : Nat}
    (fresh : name ∉ stack)
    (found : Json.get? resolver.values name = some value) :
    resolver.Overflows (.resolve value (stack ++ [name])) left →
      resolver.Overflows (.lookUp name stack) (left + 1) := by
  rintro ⟨k, more, nests⟩
  exact ⟨k + 1, by omega, .value fresh found nests⟩

theorem computes_lookUp {inner : Nat → List String → String → Resolving Json} {stack : List String}
    {name : String}
    {left : Nat} (inside : ∀ fewer < left, ∀ other, resolver.Computes
      (resolver.Overflows (.lookUp other (stack ++ [name])) fewer) (inner fewer (stack ++ [name]) other)
      (resolver.meaning other)) :
    resolver.Computes (resolver.Overflows (.lookUp name stack) (left + 1))
    (resolver.lookUp inner stack name left)
      (resolver.meaning name) := by
  refine yields_lookUp (fun a means b same => ?_) ?_
  · cases same
    exact meaning_iff.mpr means
  rw [evaluate]
  split
  · rename_i held
    refine yields_pure (fun b same => ?_)
    cases same
    exact meaning_iff.mpr (.deferred held)
  rename_i free
  split
  · exact yields_throw nofun
  rename_i fresh
  cases found : Json.get? resolver.values name with
  | none => exact yields_throw nofun
  | some value =>
    have resolved := bounded_computes.resolve value left (fun fewer lower other _ =>
      inside fewer lower other)
      (fun fewer lower other _ =>
        computes_replace (fun least below => inside least (below.trans lower) other))
    rw [resolveIn_option] at resolved
    have resolved := bounded_computes.mono (overflows_value fresh found) resolved
    refine Yields.bind resolved (fun a done => ?_) (fun _ _ => nofun)
    have means := (means_known free found).mpr (done a rfl)
    refine yields_store means (fun b same => ?_)
    cases same
    exact meaning_iff.mpr means

theorem computes_variable {rounds limit : Nat} {stack : List String} {name : String}
    (enough : limit ≤ rounds) :
    resolver.Computes (resolver.Overflows (.lookUp name stack) limit)
    (resolver.variableIn rounds limit stack name)
      (resolver.meaning name) := by
  induction rounds generalizing limit stack name with
  | zero => exact bounded_computes.recursion (Bounded.overflows_zero (by omega))
  | succ rounds ih =>
    refine bounded_computes.nested Bounded.overflows_zero (fun left isLimit => ?_)
    subst isLimit
    exact computes_lookUp (fun fewer lower other => ih (by omega))

theorem computes_resolve {limit : Nat} {stack : List String} (value : Json) :
    resolver.Computes (resolver.Overflows (.resolve value stack) limit)
    (resolver.resolveFrom limit stack value)
      (value.resolveWith resolver.meaning) := by
  rw [← resolveIn_option]
  exact bounded_computes.resolve value limit (fun left lower name _ => computes_variable lower.le)
    (fun left lower name _ =>
      computes_replace (fun fewer below => computes_variable (below.trans lower).le))

/-! ### The stack of a run -/

/-- Something is wrong with a variable itself. -/
inductive Faulty (resolver : VariableResolver) (name : String) : Prop where
  | unknown : name ∉ resolver.deferred → Json.get? resolver.values name = none → Faulty resolver name
  | cycle : Relation.TransGen resolver.Refers name name → Faulty resolver name
  | structured {value : Json} {other : String} : name ∉ resolver.deferred →
      Json.get? resolver.values name = some value → value.Embeds other → resolver.Structured other →
        Faulty resolver name

/-- Something is wrong with a variable or one that it refers to. -/
def Troubled (resolver : VariableResolver) (name : String) : Prop :=
  ∃ other, Relation.ReflTransGen resolver.Refers name other ∧ resolver.Faulty other

theorem Means.not_faulty {name : String} {a : Json} (means : resolver.Means name a) :
    ¬ resolver.Faulty name := by
  intro faulty
  cases faulty with
  | unknown free missing =>
    cases means with
    | deferred held => exact free held
    | known _ found =>
      rw [missing] at found
      cases found
  | cycle round => exact means.acyclic round
  | structured free found embeds structured =>
    have resolved := (means_known free found).mp means
    obtain ⟨b, isB, plain⟩ := (provided_resolve resolved).partly _ embeds
    have bulky := (meaning_iff.mp isB).structured_iff.mp structured
    rw [plain] at bulky
    cases bulky

theorem Means.not_troubled {name : String} {a : Json} (means : resolver.Means name a) :
    ¬ resolver.Troubled name := by
  rintro ⟨other, reaches, faulty⟩
  obtain ⟨b, isB⟩ := means.reaches reaches
  exact isB.not_faulty faulty

theorem Troubled.above {name other : String} (refers : resolver.Refers name other)
    (troubled : resolver.Troubled other) :
    resolver.Troubled name := by
  obtain ⟨last, reaches, faulty⟩ := troubled
  exact ⟨last, .head refers reaches, faulty⟩

/-- What an outcome says of a variable. -/
def Tells (resolver : VariableResolver) (name : String) : Except VariableError Json → Prop
  | .ok a => resolver.Means name a
  | .error _ => resolver.Troubled name

/-- The resolution of a value from the outcomes of its names. -/
def combine (outcome : String → Except VariableError Json) (value : Json) : Except VariableError Json :=
  resolveIn outcome (replaceIn outcome (fun name => .error (.structured name))) value

theorem combine_toOption (outcome : String → Except VariableError Json) (value : Json) :
    (combine outcome value).toOption = value.resolveWith (fun name => (outcome name).toOption) := by
  have lifts : Lifts (Except VariableError) Option (fun _ x y => x.toOption = y) := by
    constructor
    · exact fun _ => rfl
    · rintro α β x y f g rfl same
      cases x with
      | error _ => rfl
      | ok a => exact same a
  rw [← resolveIn_option]
  refine resolveIn_lifts lifts value (fun _ _ => rfl) (fun name _ => ?_)
  refine lifts.bind rfl (fun a => ?_)
  cases a.hashable <;> rfl

/-- Only a name of the value can be at fault. -/
theorem combine_error {outcome : String → Except VariableError Json} {value : Json}
    {error : VariableError}
    (raised : combine outcome value = .error error) :
    (∃ name, value.Mentions name ∧ ∃ error, outcome name = .error error) ∨
      ∃ name a, value.Embeds name ∧ outcome name = .ok a ∧ a.hashable = false := by
  by_contra fine
  rw [not_or] at fine
  have lifts : Lifts (Except VariableError) (Except VariableError)
    (fun _ x y => x = y ∧ ∀ error, x ≠ .error error) := by
    constructor
    · exact fun _ => ⟨rfl, fun _ => nofun⟩
    · rintro α β x y f g ⟨rfl, never⟩ same
      cases x with
      | error error => exact absurd rfl (never error)
      | ok a => exact same a
  have whole : ∀ name, value.Mentions name → ∀ error, outcome name ≠ .error error :=
    fun name mentions error same => fine.1 ⟨name, mentions, error, same⟩
  suffices related : combine outcome value = combine outcome value ∧
    ∀ error, combine outcome value ≠ .error error from
    related.2 error raised
  refine resolveIn_lifts lifts value (fun name mentions => ⟨rfl, whole name mentions⟩)
    (fun name embeds => ⟨rfl, ?_⟩)
  rw [replaceIn, String.ofList_toList]
  cases given : outcome name with
  | error error => exact absurd given (whole name embeds.mentions error)
  | ok a =>
    cases plain : a.hashable with
    | true =>
      intro error same
      simp [bind, Except.bind, plain, pure, Except.pure] at same
    | false => exact absurd ⟨name, a, embeds, given, plain⟩ fine.2

theorem settles_resolve {variableOf : Nat → String → Resolving Json}
    {outcome : String → Except VariableError Json}
    {limit : Nat} {stack : List String} {value : Json}
    (settles : ∀ left < limit, ∀ name, value.Mentions name →
      resolver.Settles (resolver.Overflows (.lookUp name stack) left) (variableOf left name)
      (outcome name)) :
    resolver.Settles (resolver.Overflows (.resolve value stack) limit)
    (Resolving.resolve variableOf value limit)
      (combine outcome value) :=
  bounded_settles.resolve value limit settles (fun _ lower name embeds =>
    settles_replace (fun fewer below => settles fewer (below.trans lower) name embeds.mentions))

/-- Every variable on the stack leads to the name. -/
def Leads (resolver : VariableResolver) (stack : List String) (name : String) : Prop :=
  ∀ entry ∈ stack, Relation.TransGen resolver.Refers entry name

theorem Leads.push {stack : List String} {name other : String} (leads : resolver.Leads stack name)
    (refers : resolver.Refers name other) : resolver.Leads (stack ++ [name]) other := by
  intro entry member
  obtain old | new := List.mem_append.mp member
  · exact (leads entry old).tail refers
  · rw [List.mem_singleton.mp new]
    exact .single refers

/-- A look-up has the outcome, whatever the limit, or ends at the limit. -/
def Outcome (resolver : VariableResolver) (stack : List String) (name : String)
    (out : Except VariableError Json) : Prop :=
  ∀ rounds limit, limit ≤ rounds →
    resolver.Settles (resolver.Overflows (.lookUp name stack) limit)
      (resolver.variableIn rounds limit stack name) out

/-- The outcomes of a value's names, all at once. -/
theorem exists_outcome {stack : List String} {value : Json}
    (settles : ∀ name, value.Mentions name → ∃ out, resolver.Tells name out ∧
      resolver.Outcome stack name out) :
    ∃ outcome : String → Except VariableError Json, ∀ name, value.Mentions name →
      resolver.Tells name (outcome name) ∧ resolver.Outcome stack name (outcome name) := by
  have each : ∀ name, ∃ out, value.Mentions name → resolver.Tells name out ∧
    resolver.Outcome stack name out := by
    intro name
    by_cases mentions : value.Mentions name
    · obtain ⟨out, both⟩ := settles name mentions
      exact ⟨out, fun _ => both⟩
    · exact ⟨.ok .null, fun here => absurd here mentions⟩
  exact ⟨fun name => (each name).choose, fun name => (each name).choose_spec⟩

/-- Outcomes that tell the truth agree with what the variables stand for. -/
theorem combine_ok {outcome : String → Except VariableError Json} {value result : Json}
    (tells : ∀ name, value.Mentions name → resolver.Tells name (outcome name))
    (done : combine outcome value = .ok result) :
    value.resolveWith resolver.meaning = some result := by
  have resolved := combine_toOption outcome value
  rw [done] at resolved
  rw [show (some result) = _ from resolved]
  refine resolveWith_congr (fun name mentions => ?_)
  obtain ⟨a, isA⟩ := (provided_resolve resolved.symm).whole name mentions
  have told := tells name mentions
  cases given : outcome name with
  | error _ =>
    rw [given] at isA
    cases isA
  | ok b =>
    rw [given] at told
    exact meaning_iff.mpr told

/-- Outcomes that tell the truth raise only where a reference is wrong. -/
theorem combine_wrong {outcome : String → Except VariableError Json} {value : Json}
    {error : VariableError}
    (tells : ∀ name, value.Mentions name → resolver.Tells name (outcome name))
    (raised : combine outcome value = .error error) :
    (∃ name, value.Mentions name ∧ resolver.Troubled name) ∨ ∃ name, value.Embeds name ∧
      resolver.Structured name := by
  obtain ⟨name, mentions, error, given⟩ | ⟨name, a, embeds, given, bulky⟩ := combine_error raised
  · have told := tells name mentions
    rw [given] at told
    exact .inl ⟨name, mentions, told⟩
  · have told := tells name embeds.mentions
    rw [given] at told
    exact .inr ⟨name, embeds, (Means.structured_iff told).mpr bulky⟩

/-- A look-up has the outcome that its value has, unless the variable is cached. -/
theorem outcome_lookUp {stack : List String} {name : String} {out : Except VariableError Json}
    (tells : resolver.Tells name out) (evaluates : ∀ rounds left, left ≤ rounds → resolver.Settles
      (resolver.Overflows (.lookUp name stack) (left + 1))
      (resolver.evaluate (resolver.variableIn rounds) stack name left) out) :
    resolver.Outcome stack name out := by
  intro rounds limit enough
  cases rounds with
  | zero => exact bounded_settles.recursion (Bounded.overflows_zero (by omega))
  | succ rounds =>
    refine bounded_settles.nested Bounded.overflows_zero (fun left isLimit => ?_)
    subst isLimit
    refine yields_lookUp (fun a means => ?_) (evaluates rounds left (by omega))
    cases out with
    | ok b => rw [means.unique tells]
    | error _ => exact absurd tells means.not_troubled

theorem settles_lookUp {stack : List String} {name : String} (leads : resolver.Leads stack name)
    (inside : ∀ value, Json.get? resolver.values name = some value → name ∉ stack →
      ∀ other, resolver.Refers name other →
      ∃ out, resolver.Tells other out ∧ resolver.Outcome (stack ++ [name]) other out) :
    ∃ out, resolver.Tells name out ∧ resolver.Outcome stack name out := by
  suffices evaluates : ∃ out, resolver.Tells name out ∧ ∀ rounds left, left ≤ rounds → resolver.Settles
      (resolver.Overflows (.lookUp name stack) (left + 1))
        (resolver.evaluate (resolver.variableIn rounds) stack name left)
      out by
    obtain ⟨out, tells, settles⟩ := evaluates
    exact ⟨out, tells, outcome_lookUp tells settles⟩
  simp only [evaluate]
  split
  · rename_i held
    exact ⟨.ok _, Means.deferred held, fun _ _ _ => yields_pure rfl⟩
  rename_i free
  split
  · rename_i seen
    exact ⟨.error _, ⟨name, .refl, .cycle (leads name seen)⟩, fun _ _ _ => yields_throw rfl⟩
  rename_i fresh
  cases found : Json.get? resolver.values name with
  | none => exact ⟨.error _, ⟨name, .refl, .unknown free found⟩, fun _ _ _ => yields_throw rfl⟩
  | some value =>
    have refers : ∀ other, value.Mentions other → resolver.Refers name other :=
      fun other mentions => ⟨free, value, found, mentions⟩
    obtain ⟨outcome, both⟩ :=
      exists_outcome (fun other mentions => inside value found fresh other (refers other mentions))
    have tells := fun other mentions => (both other mentions).1
    have settles : ∀ rounds left, left ≤ rounds →
      resolver.Settles (resolver.Overflows (.lookUp name stack) (left + 1))
        (Resolving.resolve (fun limit => resolver.variableIn rounds limit (stack ++ [name])) value left)
        (combine outcome value) := by
      intro rounds left enough
      refine bounded_settles.mono (overflows_value fresh found)
        (settles_resolve (fun fewer lower other mentions => ?_))
      exact (both other mentions).2 rounds fewer (lower.le.trans enough)
    cases combined : combine outcome value with
    | ok result =>
      have means := (means_known free found).mpr (combine_ok tells combined)
      rw [combined] at settles
      refine ⟨.ok result, means, fun rounds left enough =>
        Yields.bind (settles rounds left enough) (fun a same => ?_)
        (fun _ => nofun)⟩
      cases same
      exact yields_store means rfl
    | error error =>
      rw [combined] at settles
      refine ⟨.error error, ?_, fun rounds left enough =>
        Yields.bind (settles rounds left enough) (fun _ => nofun)
        (fun _ same => same)⟩
      obtain ⟨other, mentions, troubled⟩ | ⟨other, embeds, structured⟩ := combine_wrong tells combined
      · exact troubled.above (refers other mentions)
      · exact ⟨name, .refl, .structured free found embeds structured⟩

/-- Along a stack that leads to it, a variable has one outcome, which says whether something is
wrong. -/
theorem settles_variable {stack : List String} {name : String} (leads : resolver.Leads stack name) :
    ∃ out, resolver.Tells name out ∧ resolver.Outcome stack name out := by
  generalize measure : resolver.free stack = more
  induction more using Nat.strong_induction_on generalizing stack name with
  | _ more ih =>
    refine settles_lookUp leads (fun value found fresh other refers => ih _ ?_ (leads.push refers) rfl)
    exact measure ▸ free_push found fresh

/-- Something is wrong with a value exactly when it refers to a variable in trouble or embeds a
structured one. -/
theorem sound_iff (resolver : VariableResolver) (value : Json) : resolver.Sound value ↔
    (∀ name, value.Mentions name → ¬ resolver.Troubled name) ∧ ∀ name, value.Embeds name →
      ¬ resolver.Structured name := by
  constructor
  · intro sound
    refine ⟨?_, sound.plain⟩
    rintro first mentions ⟨name, reaches, faulty⟩
    have reached : resolver.Reaches value name := ⟨first, mentions, reaches⟩
    cases faulty with
    | unknown free missing => exact sound.known name reached free missing
    | cycle round => exact sound.acyclic name reached round
    | structured free found embeds structured =>
      exact sound.plainBelow name reached free _ found _ embeds structured
  · rintro ⟨fine, plain⟩
    constructor
    · rintro name ⟨first, mentions, reaches⟩ free missing
      exact fine first mentions ⟨name, reaches, .unknown free missing⟩
    · rintro name ⟨first, mentions, reaches⟩ round
      exact fine first mentions ⟨name, reaches, .cycle round⟩
    · exact plain
    · rintro name ⟨first, mentions, reaches⟩ free below found other embeds structured
      exact fine first mentions ⟨name, reaches, .structured free found embeds structured⟩

/-- Resolving a value has one outcome, whatever the limit, or ends at the limit. It succeeds exactly
when nothing is wrong with the references. -/
theorem settles_resolveFrom (resolver : VariableResolver) (value : Json) :
    ∃ out : Except VariableError Json, ((∃ result, out = .ok result) ↔ resolver.Sound value) ∧
      ∀ limit, resolver.Settles (resolver.Overflows (.resolve value []) limit)
      (resolver.resolveFrom limit [] value) out := by
  have each : ∀ name, value.Mentions name → ∃ out, resolver.Tells name out ∧
    resolver.Outcome [] name out :=
    fun _ _ => settles_variable (fun _ member => absurd member List.not_mem_nil)
  obtain ⟨outcome, both⟩ := exists_outcome each
  have tells := fun other mentions => (both other mentions).1
  refine ⟨combine outcome value, ?_, fun limit => settles_resolve (fun _ lower other mentions =>
    (both other mentions).2 limit _ lower.le)⟩
  rw [sound_iff]
  constructor
  · rintro ⟨result, done⟩
    have provided := provided_resolve (combine_ok tells done)
    refine ⟨fun name mentions => ?_, fun name embeds structured => ?_⟩
    · obtain ⟨a, isA⟩ := provided.whole name mentions
      exact (meaning_iff.mp isA).not_troubled
    · obtain ⟨a, isA, plain⟩ := provided.partly name embeds
      have bulky := (meaning_iff.mp isA).structured_iff.mp structured
      rw [plain] at bulky
      cases bulky
  · rintro ⟨fine, plain⟩
    cases combined : combine outcome value with
    | ok result => exact ⟨result, rfl⟩
    | error error =>
      obtain ⟨name, mentions, troubled⟩ | ⟨name, embeds, structured⟩ := combine_wrong tells combined
      · exact absurd troubled (fine name mentions)
      · exact absurd structured (plain name embeds)

theorem free_le (resolver : VariableResolver) (stack : List String) :
    resolver.free stack ≤ resolver.values.length :=
  (List.length_filter_le _ _).trans_eq (List.length_map _)

/-- Calls with any stack and any limit leave an honest cache, whatever they raise. -/
theorem honest_after (calls : List (Nat × ResolverCall)) {cache : Object}
    (honest : resolver.Honest cache) :
    resolver.Honest (resolver.after calls cache) := by
  induction calls generalizing cache with
  | nil => exact honest
  | cons first rest ih =>
    refine ih ?_
    obtain ⟨limit, call⟩ := first
    cases call with
    | lookUp name stack => exact (computes_variable (le_refl limit) cache honest).1
    | resolve value stack => exact (computes_resolve value cache honest).1

/-! ### Without the cache -/

theorem variableNamed_means {rounds : Nat} {stack : List String} {name : String} {a : Json}
    (found : resolver.variableNamed rounds stack name = some a) : resolver.Means name a := by
  induction rounds generalizing stack name a with
  | zero =>
    rw [variableNamed, Option.ite_none_right_eq_some] at found
    obtain ⟨held, same⟩ := found
    cases same
    exact .deferred held
  | succ rounds ih =>
    rw [variableNamed] at found
    split at found
    · rename_i held
      cases found
      exact .deferred held
    · rename_i free
      rw [Option.ite_none_left_eq_some] at found
      obtain ⟨value, isValue, resolved⟩ := Option.bind_eq_some_iff.mp found.2
      exact .known free isValue (fun other b _ inner => ih inner) resolved

theorem means_variableNamed {rounds : Nat} {stack : List String} {name : String} {a : Json}
    (means : resolver.Means name a)
    (enough : resolver.free stack ≤ rounds) (leads : resolver.Leads stack name) :
    resolver.variableNamed rounds stack name = some a := by
  induction rounds generalizing stack name a with
  | zero =>
    rw [variableNamed]
    by_cases held : name ∈ resolver.deferred
    · rw [if_pos held, means.unique (.deferred held)]
    · cases means with
      | deferred held' => exact absurd held' held
      | known free found inner resolved =>
        have fresh : name ∉ stack := fun seen =>
          (Means.known free found inner resolved).acyclic (leads name seen)
        have := free_push found fresh
        omega
  | succ rounds ih =>
    rw [variableNamed]
    by_cases held : name ∈ resolver.deferred
    · rw [if_pos held, means.unique (.deferred held)]
    · rw [if_neg held, if_neg (fun seen => means.acyclic (leads name seen))]
      cases means with
      | deferred held' => exact absurd held' held
      | @known _ value _ lookup free found inner resolved =>
        have fresh : name ∉ stack := fun seen =>
          (Means.known free found inner resolved).acyclic (leads name seen)
        have fewer := free_push found fresh
        refine Option.bind_eq_some_iff.mpr ⟨value, found, ?_⟩
        rw [← resolved]
        refine resolveWith_congr (fun other mentions => ?_)
        obtain ⟨b, isB⟩ := (provided_resolve resolved).whole other mentions
        rw [isB]
        exact ih (inner other b mentions isB) (by omega) (leads.push ⟨free, value, found, mentions⟩)

/-- The resolver without a cache gives what the variables stand for. -/
theorem resolve_meaning (resolver : VariableResolver) (value : Json) :
    resolver.resolve value = value.resolveWith resolver.meaning := by
  refine resolveWith_congr (fun name _ => Option.ext (fun a => ?_))
  rw [meaning_iff]
  constructor
  · exact variableNamed_means
  · exact fun means => means_variableNamed means (resolver.free_le [])
      (fun _ member => absurd member List.not_mem_nil)

/-- The cache changes nothing: what a call gives after any others is what the resolver without a
cache gives. -/
theorem resolveFrom_resolve {limit : Nat} {calls : List (Nat × ResolverCall)} {value result : Json}
    (done : resolver.answer limit calls value = .ok result) :
    resolver.resolve value = some result := by
  rw [resolve_meaning]
  have computes : resolver.Computes _ (resolver.resolveFrom limit [] value) _ := computes_resolve value
  obtain ⟨_, ⟨ends, _⟩ | ⟨out, ran, holds⟩⟩ := computes _ (honest_after calls honest_empty)
  · rw [show resolver.answer limit calls value = _ from ends] at done
    cases done
  · rw [show resolver.answer limit calls value = _ from ran] at done
    cases out with
    | error error => cases done
    | ok a =>
      cases done
      exact holds _ rfl

end Runs

/-- The name of a link in a chain. -/
def link (k : Nat) : String := String.ofList (List.replicate (k + 1) 'a')

/-- Every link refers to the one before it, and the first is a number. -/
def linkValue : Nat → Json
  | 0 => .int 1
  | k + 1 => .str (referenceTo (link k))

def chainLayers (length : Nat) : List (String × Object) :=
  (List.range length).map (fun k => ("inputs", [(link k, linkValue k)]))

/-- A resolver with a chain of so many links. -/
def chain (length : Nat) : VariableResolver := ofLayers (chainLayers length) []

theorem link_inj {j k : Nat} : link j = link k ↔ j = k := by
  refine ⟨fun same => ?_, congrArg link⟩
  have lengths := congrArg (fun name : String => name.toList.length) same
  simp only [link, String.toList_ofList, List.length_replicate] at lengths
  omega

theorem wholeReference?_link (k : Nat) :
    Values.wholeReference? (referenceTo (link k)) = some (link k) := by
  refine Values.wholeReference?_iff.mpr
    ⟨⟨'a', List.replicate k 'a', ?_, by decide, fun c member => ?_⟩, ?_⟩
  · rw [link, String.toList_ofList, List.replicate_succ]
  · rw [List.eq_of_mem_replicate member]
    decide
  · rw [referenceTo, String.toList_ofList]
    rfl

theorem flatten_link (k : Nat) : flatten [(link k, linkValue k)] = [(link k, linkValue k)] := by
  have plain : ∀ path, flattenItem path (linkValue k) = [] := by
    intro path
    cases k <;> rfl
  rw [flatten, flattenInto, flattenInto, plain]
  rfl

theorem get?_chain (length k : Nat) :
    Json.get? (chain length).values (link k) = if k < length then some (linkValue k) else none := by
  induction length with
  | zero => rfl
  | succ length ih =>
    have step : (chain (length + 1)).values = Json.assign (chain length).values (link length)
      (linkValue length) := by
      unfold chain chainLayers ofLayers layeredValues
      rw [List.range_succ, List.map_append, List.map_append, List.foldl_append]
      simp only [List.map_cons, List.map_nil, List.foldl_cons, List.foldl_nil, flatten_link]
      rfl
    rw [step, Json.get?_assign, ih]
    by_cases same : k = length
    · rw [same, if_pos rfl, if_pos length.lt_succ_self]
    · rw [if_neg (fun equal => same (link_inj.mp equal))]
      congr 1
      exact propext ⟨fun lower => by omega, fun lower => by omega⟩

theorem refers_link {length k : Nat} {name : String} (refers : (chain length).Refers (link k) name) :
    ∃ j < k, name = link j := by
  obtain ⟨_, value, found, mentions⟩ := refers
  rw [get?_chain, Option.ite_none_right_eq_some] at found
  obtain ⟨_, same⟩ := found
  cases same
  cases k with
  | zero => cases mentions
  | succ k => exact ⟨k, k.lt_succ_self, (mentions_whole (wholeReference?_link k)).mp mentions⟩

theorem embeds_link {k : Nat} {name : String} : ¬ (linkValue k).Embeds name := by
  intro embeds
  cases k with
  | zero => cases embeds
  | succ k =>
    have partly := embeds.1
    rw [wholeReference?_link] at partly
    cases partly

theorem reaches_link {length k : Nat} {name : String}
    (reaches : Relation.ReflTransGen (chain length).Refers (link k) name) :
    ∃ j ≤ k, name = link j := by
  induction reaches with
  | refl => exact ⟨k, le_rfl, rfl⟩
  | tail _ refers ih =>
    obtain ⟨j, below, rfl⟩ := ih
    obtain ⟨i, lower, same⟩ := refers_link refers
    exact ⟨i, by omega, same⟩

/-- Nothing is wrong with a chain. -/
theorem sound_chain {length k : Nat} (within : k < length) :
    (chain length).Sound (.str (referenceTo (link k))) := by
  have reached : ∀ name, (chain length).Reaches (.str (referenceTo (link k))) name →
    ∃ j ≤ k, name = link j := by
    rintro name ⟨first, mentions, reaches⟩
    rw [(mentions_whole (wholeReference?_link k)).mp mentions] at reaches
    exact reaches_link reaches
  constructor
  · intro name reaches _
    obtain ⟨j, below, rfl⟩ := reached name reaches
    rw [get?_chain, if_pos (by omega)]
    exact nofun
  · intro name reaches round
    obtain ⟨j, below, rfl⟩ := reached name reaches
    obtain ⟨next, first, back⟩ := Relation.TransGen.head'_iff.mp round
    obtain ⟨i, lower, rfl⟩ := refers_link first
    obtain ⟨h, under, same⟩ := reaches_link back
    have := link_inj.mp same
    omega
  · exact fun name embeds => absurd embeds (embeds_link (k := k + 1))
  · intro name reaches _ below found other embeds
    obtain ⟨j, _, rfl⟩ := reached name reaches
    rw [get?_chain, Option.ite_none_right_eq_some] at found
    obtain ⟨_, same⟩ := found
    cases same
    exact absurd embeds embeds_link

theorem evaluate_link {length k left : Nat} {inner : Nat → List String → String → Resolving Json}
    {stack : List String}
    (within : k < length) (fresh : link k ∉ stack) :
    (chain length).evaluate inner stack (link k) left = (do
      let resolved ← Resolving.resolve (fun limit => inner limit (stack ++ [link k])) (linkValue k) left
      modify (fun cache => Json.assign cache (link k) resolved)
      pure resolved) := by
  rw [evaluate, if_neg (show link k ∉ (chain length).deferred from List.not_mem_nil), if_neg fresh,
    get?_chain, if_pos within]

theorem resolve_link {k left : Nat} {variableOf : Nat → String → Resolving Json} :
    Resolving.resolve variableOf (.str (referenceTo (link k))) (left + 1) = variableOf left
    (link k) := by
  rw [Resolving.resolve, Resolving.nested, wholeReference?_link]

theorem variableIn_link {length k rounds limit : Nat} {stack : List String} {cache : Object}
    (within : k < length)
    (fresh : link k ∉ stack) (missing : Json.get? cache (link k) = none) :
    Resolving.run ((chain length).variableIn (rounds + 1) (limit + 1) stack (link k)) cache =
      Resolving.run (do
      let resolved ← Resolving.resolve
        (fun left => (chain length).variableIn rounds left (stack ++ [link k])) (linkValue k)
        limit
      modify (fun cache => Json.assign cache (link k) resolved)
      pure resolved) cache := by
  rw [← evaluate_link within fresh]
  change Resolving.run (match Json.get? cache (link k) with
    | some value => (pure value : Resolving Json)
    | none => (chain length).evaluate ((chain length).variableIn rounds) stack (link k) limit) cache = _
  rw [missing]

theorem variableIn_cached {length k rounds limit : Nat} {stack : List String} {cache : Object}
    {value : Json}
    (found : Json.get? cache (link k) = some value) :
    Resolving.run ((chain length).variableIn (rounds + 1) (limit + 1) stack (link k)) cache =
    (.ok value, cache) := by
  change Resolving.run (match Json.get? cache (link k) with
    | some value => (pure value : Resolving Json)
    | none => (chain length).evaluate ((chain length).variableIn rounds) stack (link k) limit) cache = _
  rw [found]
  rfl

/-- From an empty cache each link takes two calls more. -/
theorem chain_overflows {length k rounds limit : Nat} {stack : List String} (within : k < length)
    (short : limit < 2 * k + 2) (fresh : ∀ j ≤ k, link j ∉ stack) :
    Resolving.run ((chain length).variableIn rounds limit stack (link k)) [] =
    (.error .recursion, []) := by
  induction k generalizing rounds limit stack with
  | zero =>
    obtain _ | rounds := rounds
    · rfl
    obtain _ | _ | limit := limit
    · rfl
    · rw [variableIn_link within (fresh 0 le_rfl) rfl]
      rfl
    · omega
  | succ k ih =>
    obtain _ | rounds := rounds
    · rfl
    obtain _ | _ | limit := limit
    · rfl
    · rw [variableIn_link within (fresh _ le_rfl) rfl]
      rfl
    · have below : Resolving.run
        ((chain length).variableIn rounds limit (stack ++ [link (k + 1)]) (link k)) [] =
          (.error .recursion, []) := by
        refine ih (by omega) (by omega) (fun j lower member => ?_)
        obtain old | new := List.mem_append.mp member
        · exact fresh j (by omega) old
        · have := link_inj.mp (List.mem_singleton.mp new)
          omega
      rw [variableIn_link within (fresh _ le_rfl) rfl, linkValue, resolve_link, Resolving.run_bind, below]

/-- The links below are in the cache, and no others. -/
def Known (k : Nat) (cache : Object) : Prop :=
  (∀ j < k, Json.get? cache (link j) = some (.int 1)) ∧ ∀ j ≥ k, Json.get? cache (link j) = none

/-- Where the links below are known, looking one up nests three calls. -/
theorem known_lookUp {length k limit : Nat} {cache : Object} (within : k < length)
    (known : Known k cache) :
    Known (k + 1) (Resolving.run ((chain length).variableFrom (limit + 3) [] (link k)) cache).2 := by
  have run : Resolving.run ((chain length).variableFrom (limit + 3) [] (link k)) cache =
      (.ok (.int 1), Json.assign cache (link k) (.int 1)) := by
    rw [variableFrom, variableIn_link within List.not_mem_nil (known.2 k le_rfl)]
    cases k with
    | zero => rfl
    | succ k =>
      rw [linkValue, resolve_link, Resolving.run_bind, variableIn_cached (known.1 k k.lt_succ_self)]
      rfl
  rw [run]
  constructor
  · intro j below
    rw [Json.get?_assign]
    split
    · rfl
    · rename_i other
      refine known.1 j ?_
      rcases Nat.lt_succ_iff_lt_or_eq.mp below with lower | rfl
      exacts [lower, absurd rfl other]
  · intro j above
    rw [Json.get?_assign, if_neg (fun same => ?_)]
    · exact known.2 j (by omega)
    · have := link_inj.mp same
      omega

/-- Every link of a chain is looked up in turn. -/
def eachLink (limit count : Nat) : List (Nat × ResolverCall) :=
  (List.range count).map (fun k => (limit, .lookUp (link k) []))

theorem known_after {length count limit : Nat} (within : count ≤ length) :
    Known count ((chain length).after (eachLink (limit + 3) count) []) := by
  induction count with
  | zero => exact ⟨fun j below => absurd below j.not_lt_zero, fun _ _ => rfl⟩
  | succ count ih =>
    rw [eachLink, List.range_succ, List.map_append, after, List.foldl_append]
    exact known_lookUp (by omega) (ih (by omega))

/-- On a long chain `resolve` raises a `RecursionError`. Within the same limit it succeeds after
smaller calls. -/
theorem chain_answers (limit : Nat) :
    (chain (limit + 2)).answer (limit + 3) [] (.str (referenceTo (link (limit + 1)))) =
      .error .recursion ∧
      (chain (limit + 2)).answer (limit + 3) (eachLink (limit + 3) (limit + 2))
      (.str (referenceTo (link (limit + 1)))) =
        .ok (.int 1) := by
  have resolves : ∀ calls,
    (chain (limit + 2)).answer (limit + 3) calls (.str (referenceTo (link (limit + 1)))) =
      (Resolving.run ((chain (limit + 2)).variableIn (limit + 3) (limit + 2) [] (link (limit + 1)))
        ((chain (limit + 2)).after calls [])).1 := by
    intro calls
    rw [answer, resolveFrom, resolve_link]
    rfl
  rw [resolves, resolves]
  constructor
  · rw [after, List.foldl_nil, chain_overflows (by omega) (by omega) (fun _ _ => List.not_mem_nil)]
  · rw [variableIn_cached ((known_after le_rfl).1 (limit + 1) (by omega))]

/-- Wherever the interpreter draws its limit, there is a value with nothing wrong on which `resolve`
raises a `RecursionError`, and on which it succeeds after other calls. -/
theorem chain_exceeds (limit : Nat) : ∃ layers value, (ofLayers layers []).Sound value ∧
    (ofLayers layers []).answer (limit + 3) [] value = .error .recursion ∧
    ∃ calls, (∀ entry ∈ calls, entry.1 = limit + 3) ∧
    (ofLayers layers []).answer (limit + 3) calls value = .ok (.int 1) := by
  refine ⟨chainLayers (limit + 2), .str (referenceTo (link (limit + 1))), sound_chain (by omega),
    (chain_answers limit).1,
    eachLink (limit + 3) (limit + 2), fun entry member => ?_, (chain_answers limit).2⟩
  obtain ⟨k, _, rfl⟩ := List.mem_map.mp member
  rfl

end VariableResolver
end LocalFlow
