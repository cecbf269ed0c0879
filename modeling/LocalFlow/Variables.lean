import LocalFlow.Library.References
import LocalFlow.Models

/-! `VariableResolver` of `variables.py` with one layer of integers, as the store uses it. A string
that is one reference becomes the integer itself; any other string keeps its text. -/
namespace LocalFlow

/-- `[a-zA-Z_][a-zA-Z0-9_.-]*`. -/
def variableName : References where
  start := fun c => c.isAlpha || c = '_'
  more := fun c => c.isAlphanum || c = '_' || c = '.' || c = '-'

theorem variableName_closes : variableName.more References.closing = false := by decide

/-- The dictionary of one resolver layer. -/
abbrev Values := List (String × Int)

namespace Values
variable (values : Values)

/-- `variable`; `none` is the unknown variable. -/
def get? (name : String) : Option Int := values.lookup name

/-- `str(resolved)` of a referenced variable. -/
def decimal (name : List Char) : Option (List Char) :=
  (values.get? (String.ofList name)).map (fun n => (toString n).toList)

/-- `REFERENCE.fullmatch(value)`. -/
def wholeReference? (text : String) : Option String :=
  match variableName.reference? text.toList with
  | some (name, []) => some (String.ofList name)
  | _ => none

/-- `REFERENCE.sub(replace, value)`. -/
def resolveText (text : String) : Option String :=
  (variableName.substitute values.decimal text.toList.length text.toList).map String.ofList

mutual
def resolve : Json → Option Json
  | .null => some .null
  | .bool b => some (.bool b)
  | .int n => some (.int n)
  | .float repr => some (.float repr)
  | .str s =>
    match wholeReference? s with
    | some name => (values.get? name).map .int
    | none => (values.resolveText s).map .str
  | .arr items => (resolveItems items).map .arr
  | .obj fields => (resolveFields fields).map .obj

def resolveItems : List Json → Option (List Json)
  | [] => some []
  | item :: rest => do
    let first ← resolve item
    let others ← resolveItems rest
    some (first :: others)

def resolveFields : List (String × Json) → Option (List (String × Json))
  | [] => some []
  | (key, value) :: rest => do
    let first ← resolve value
    let others ← resolveFields rest
    some ((key, first) :: others)
end

/-- The text with every reference replaced by the decimal digits of its integer. -/
def Fills (text filled : String) : Prop :=
  variableName.Fills values.decimal text.toList filled.toList

/-- The text is one reference to `name`. -/
def Refers (name text : String) : Prop := variableName.Begins name.toList [] text.toList

mutual
/-- The value with every reference in its strings replaced. -/
inductive Filled : Json → Json → Prop where
  | null : Filled .null .null
  | bool (b : Bool) : Filled (.bool b) (.bool b)
  | int (n : Int) : Filled (.int n) (.int n)
  | float (repr : String) : Filled (.float repr) (.float repr)
  | reference {text name : String} {n : Int} : Refers name text → values.get? name = some n →
      Filled (.str text) (.int n)
  | text {text filled : String} : (∀ name, ¬ Refers name text) → values.Fills text filled →
      Filled (.str text) (.str filled)
  | arr {items filled : List Json} : FilledItems items filled → Filled (.arr items) (.arr filled)
  | obj {fields filled : Object} : FilledFields fields filled → Filled (.obj fields) (.obj filled)

inductive FilledItems : List Json → List Json → Prop where
  | nil : FilledItems [] []
  | cons {item filled : Json} {rest others : List Json} : Filled item filled →
      FilledItems rest others → FilledItems (item :: rest) (filled :: others)

inductive FilledFields : Object → Object → Prop where
  | nil : FilledFields [] []
  | cons {key : String} {value filled : Json} {rest others : Object} : Filled value filled →
      FilledFields rest others → FilledFields ((key, value) :: rest) ((key, filled) :: others)
end

/-- An integer is written with digits and a sign. -/
theorem integer_chars (n : Int) : ∀ c ∈ (toString n).toList, c.isDigit = true ∨ c = '-' := by
  have natural : ∀ m : Nat, ∀ c ∈ m.repr.toList, c.isDigit = true := by
    intro m c member
    rw [Nat.toList_repr] at member
    exact Nat.isDigit_of_mem_toDigits (by decide) (by decide) member
  intro c member
  rw [Int.toString_eq_repr, Int.repr_eq_if] at member
  split at member
  · exact .inl (natural _ c member)
  · rw [String.toList_append, List.mem_append] at member
    rcases member with sign | digit
    · exact .inr (by simpa using sign)
    · exact .inl (natural _ c digit)

theorem decimal_chars {name put : List Char} (known : values.decimal name = some put) :
    ∀ c ∈ put, c.isDigit = true ∨ c = '-' := by
  obtain ⟨n, _, rfl⟩ := Option.map_eq_some_iff.mp known
  exact integer_chars n

theorem wholeReference?_iff {text name : String} :
    wholeReference? text = some name ↔ Refers name text := by
  unfold wholeReference? Refers
  constructor
  · intro found
    split at found
    · rename_i chars begun
      cases found
      simpa using References.reference?_begins begun
    · cases found
  · intro begins
    rw [References.begins_reference? variableName_closes begins]
    simp

variable {values}

theorem decimal_plain (name put : List Char) (known : values.decimal name = some put) : '$' ∉ put := by
  intro member
  rcases values.decimal_chars known _ member with digit | sign
  · exact absurd digit (by decide)
  · exact absurd sign (by decide)

theorem resolveText_fills {text filled : String} (done : values.resolveText text = some filled) :
    values.Fills text filled := by
  unfold resolveText at done
  obtain ⟨out, substituted, rfl⟩ := Option.map_eq_some_iff.mp done
  unfold Fills
  rw [String.toList_ofList]
  exact References.substitute_fills variableName_closes substituted

mutual
/-- A resolved value has every reference in its strings replaced. -/
theorem resolve_filled : ∀ {json filled : Json}, values.resolve json = some filled →
    values.Filled json filled
  | .null, _, done => by
    cases done
    exact .null
  | .bool b, _, done => by
    cases done
    exact .bool b
  | .int n, _, done => by
    cases done
    exact .int n
  | .float repr, _, done => by
    cases done
    exact .float repr
  | .str s, filled, done => by
    unfold resolve at done
    split at done
    · rename_i name whole
      obtain ⟨n, known, rfl⟩ := Option.map_eq_some_iff.mp done
      exact .reference (wholeReference?_iff.mp whole) known
    · rename_i partly
      obtain ⟨out, resolved, rfl⟩ := Option.map_eq_some_iff.mp done
      refine .text (fun name refers => ?_) (resolveText_fills resolved)
      rw [wholeReference?_iff.mpr refers] at partly
      cases partly
  | .arr items, filled, done => by
    unfold resolve at done
    obtain ⟨out, resolved, rfl⟩ := Option.map_eq_some_iff.mp done
    exact .arr (resolveItems_filled resolved)
  | .obj fields, filled, done => by
    unfold resolve at done
    obtain ⟨out, resolved, rfl⟩ := Option.map_eq_some_iff.mp done
    exact .obj (resolveFields_filled resolved)

theorem resolveItems_filled : ∀ {items filled : List Json}, values.resolveItems items = some filled →
    values.FilledItems items filled
  | [], _, done => by
    cases done
    exact .nil
  | item :: rest, filled, done => by
    unfold resolveItems at done
    simp only [Option.bind_eq_bind, Option.bind_eq_some_iff, Option.some.injEq] at done
    obtain ⟨first, one, others, more, rfl⟩ := done
    exact .cons (resolve_filled one) (resolveItems_filled more)

theorem resolveFields_filled : ∀ {fields filled : Object},
    values.resolveFields fields = some filled → values.FilledFields fields filled
  | [], _, done => by
    cases done
    exact .nil
  | (key, value) :: rest, filled, done => by
    unfold resolveFields at done
    simp only [Option.bind_eq_bind, Option.bind_eq_some_iff, Option.some.injEq] at done
    obtain ⟨first, one, others, more, rfl⟩ := done
    exact .cons (resolve_filled one) (resolveFields_filled more)
end

end Values
end LocalFlow
