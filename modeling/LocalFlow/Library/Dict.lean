import Mathlib.Data.List.Basic

/-! A finite dictionary in which every key that was never set has a default value. -/

structure Dict (κ V : Type*) where
  entries : List (κ × V)

namespace Dict
variable {κ V : Type*} [DecidableEq κ] [Inhabited V]

def empty : Dict κ V := ⟨[]⟩

def get (dict : Dict κ V) (key : κ) : V := (dict.entries.lookup key).getD default

def set (dict : Dict κ V) (key : κ) (value : V) : Dict κ V := ⟨(key, value) :: dict.entries⟩

/-- A condition on the value of every key that was ever set. -/
def all (dict : Dict κ V) (p : V → Bool) : Bool := dict.entries.all (fun entry => p (dict.get entry.1))

/-- Change every value that was ever set. -/
def map (dict : Dict κ V) (f : V → V) : Dict κ V :=
  ⟨dict.entries.map (fun entry => (entry.1, f entry.2))⟩

variable (dict : Dict κ V) (key other : κ) (value : V)

@[simp] theorem get_empty : (empty : Dict κ V).get key = default := rfl

@[simp] theorem get_set :
    (dict.set key value).get other = if other = key then value else dict.get other := by
  unfold get set
  rw [List.lookup_cons]
  by_cases same : other = key
  · simp [same]
  · have apart : (other == key) = false := by simp [same]
    simp [apart, same]

theorem get_map {f : V → V} (fixed : f default = default) :
    (dict.map f).get key = f (dict.get key) := by
  unfold get map
  induction dict.entries with
  | nil => simp [fixed]
  | cons entry rest ih =>
    rw [List.map_cons, List.lookup_cons, List.lookup_cons]
    cases key == entry.1 with
    | true => rfl
    | false => exact ih

theorem get_of_not_mem {key : κ} (unset : key ∉ dict.entries.map Prod.fst) :
    dict.get key = default := by
  have missing : dict.entries.lookup key = none := by
    rw [List.lookup_eq_none_iff]
    rintro ⟨other, value⟩ member
    simpa using fun same : key = other => unset (same ▸ List.mem_map_of_mem member)
  simp [get, missing]

theorem all_iff {p : V → Bool} (blank : p default = true) :
    dict.all p = true ↔ ∀ key, p (dict.get key) = true := by
  unfold all
  rw [List.all_eq_true]
  constructor
  · intro every key
    cases found : dict.entries.lookup key with
    | none =>
      have missing : dict.get key = default := by simp [get, found]
      rw [missing]
      exact blank
    | some value =>
      obtain ⟨before, after, split, -⟩ := List.lookup_eq_some_iff.mp found
      exact every (key, value) (by rw [split]; simp)
  · exact fun every entry _ => every entry.1

end Dict
