import LocalFlow.Drafting
import Mathlib.Tactic.Common

/-! When validation accepts a draft, and what putting deferred values in place keeps of a text that
was accepted before. -/
namespace LocalFlow

/-- No blank at either end. -/
structure Trimmed (text : List Char) : Prop where
  head : ∀ c, text.head? = some c → isSpace c = false
  last : ∀ c, text.getLast? = some c → isSpace c = false

section Trimming
variable {text : List Char} {item : String} {items : List String}

theorem dropWhile_head (first : ∀ c, text.head? = some c → isSpace c = false) :
    text.dropWhile isSpace = text := by
  cases text with
  | nil => rfl
  | cons c text => exact List.dropWhile_cons_of_neg (by simp [first c rfl])

theorem dropWhile_trims (text : List Char) :
    ∀ c, (text.dropWhile isSpace).head? = some c → isSpace c = false := by
  induction text with
  | nil => simp
  | cons first text ih =>
    intro c isHead
    cases space : isSpace first with
    | true =>
      rw [List.dropWhile_cons_of_pos space] at isHead
      exact ih c isHead
    | false =>
      rw [List.dropWhile_cons_of_neg (by simp [space])] at isHead
      rw [← Option.some.inj isHead]
      exact space

theorem strip_trimmed (trimmed : Trimmed item.toList) : strip item = item := by
  have front := dropWhile_head trimmed.head
  have back : item.toList.reverse.dropWhile isSpace = item.toList.reverse :=
    dropWhile_head (fun c isHead => trimmed.last c (by simpa using isHead))
  rw [strip, front, back, List.reverse_reverse, String.ofList_toList]

theorem trimmed_strip (item : String) : Trimmed (strip item).toList := by
  unfold strip
  rw [String.toList_ofList]
  constructor
  · intro c isHead
    have front : ((item.toList.dropWhile isSpace).reverse.dropWhile isSpace).reverse <+:
      item.toList.dropWhile isSpace := by
      rw [← List.reverse_suffix, List.reverse_reverse]
      exact List.dropWhile_suffix isSpace
    obtain ⟨rest, whole⟩ := front
    refine dropWhile_trims item.toList c ?_
    rw [← whole, List.head?_append, isHead]
    rfl
  · intro c isLast
    rw [List.getLast?_reverse] at isLast
    exact dropWhile_trims _ c isLast

@[simp] theorem strip_strip (item : String) : strip (strip item) = strip item :=
  strip_trimmed (trimmed_strip item)

end Trimming

/-- A list of names as `labels` and `mutex_keys` keep them. -/
structure UniqueNames (items : List String) : Prop where
  range : ∀ item ∈ items, item ≠ "" ∧ item.length ≤ 128
  distinct : items.Nodup

/-- What validation asks of a new task. -/
structure TaskCreate.Valid (draft : TaskCreate) : Prop where
  name : 1 ≤ draft.name.length ∧ draft.name.length ≤ 200
  workingDirectory : 1 ≤ draft.workingDirectory.length
  command : draft.command ≠ []
  arguments : ∀ item ∈ draft.command, item ≠ "" ∧ nul ∉ item.toList
  labels : draft.labels.length ≤ 64 ∧ UniqueNames (draft.labels.map strip)
  mutexKeys : draft.mutexKeys.length ≤ 32 ∧ UniqueNames (draft.mutexKeys.map strip)

section Validation
variable {items normalized : List String} {draft task : TaskCreate}

theorem normalizedUnique_iff :
    normalizedUnique items = some normalized ↔ UniqueNames (items.map strip) ∧
      normalized = items.map strip := by
  unfold normalizedUnique
  simp only [Option.ite_none_left_eq_some, Option.ite_none_right_eq_some, Option.some.injEq]
  constructor
  · rintro ⟨range, distinct, rfl⟩
    refine ⟨⟨fun item member => ?_, distinct⟩, rfl⟩
    by_contra outside
    refine range (List.any_eq_true.mpr ⟨item, member, decide_eq_true ?_⟩)
    rw [not_and_or, not_not, Nat.not_le] at outside
    exact outside
  · rintro ⟨unique, rfl⟩
    refine ⟨fun outside => ?_, unique.distinct, rfl⟩
    obtain ⟨item, member, short⟩ := List.any_eq_true.mp outside
    rcases of_decide_eq_true short with empty | long
    · exact (unique.range item member).1 empty
    · exact absurd (unique.range item member).2 (Nat.not_le.mpr long)

theorem validate_iff : draft.validate = some task ↔ draft.Valid ∧
    task = { draft with labels := draft.labels.map strip, mutexKeys := draft.mutexKeys.map strip } := by
  unfold TaskCreate.validate
  simp only [Option.bind_eq_bind, Option.ite_none_right_eq_some, Option.bind_eq_some_iff,
    normalizedUnique_iff, Option.some.injEq]
  constructor
  · rintro ⟨⟨short, long, directory, command, arguments, labels, keys⟩, _, ⟨labelled, rfl⟩, _,
      ⟨keyed, rfl⟩, rfl⟩
    exact ⟨⟨⟨short, long⟩, directory, command, arguments, ⟨labels, labelled⟩, ⟨keys, keyed⟩⟩, rfl⟩
  · rintro ⟨valid, rfl⟩
    exact ⟨⟨valid.name.1, valid.name.2, valid.workingDirectory, valid.command, valid.arguments,
      valid.labels.1,
      valid.mutexKeys.1⟩, _, ⟨valid.labels.2, rfl⟩, _, ⟨valid.mutexKeys.2, rfl⟩, rfl⟩

end Validation

namespace Values
open References

/-- The text refers to `name` somewhere. -/
def Mentions (name text : String) : Prop := variableName.Mentions name.toList text.toList

variable {values : Values} {text filled : String}

theorem decimal_ne_nil {name put : List Char} (known : values.decimal name = some put) : put ≠ [] := by
  obtain ⟨n, _, rfl⟩ := Option.map_eq_some_iff.mp known
  rw [Int.toString_eq_repr, Int.repr_eq_if]
  have natural : ∀ m : Nat, m.repr.toList ≠ [] := by
    intro m empty
    rw [Nat.toList_repr] at empty
    exact absurd (congrArg List.length empty) (Nat.ne_of_gt Nat.length_toDigits_pos)
  split
  · exact natural _
  · simp

/-- The characters of an integer in place. -/
theorem decimal_put {P : Char → Prop} (digit : ∀ c : Char, c.isDigit = true → P c) (sign : P '-')
    (name put : List Char) (known : values.decimal name = some put) : put ≠ [] ∧ ∀ c ∈ put, P c := by
  refine ⟨decimal_ne_nil known, fun c member => ?_⟩
  rcases values.decimal_chars known c member with isDigit | rfl
  · exact digit c isDigit
  · exact sign

theorem Fills.nul (fills : values.Fills text filled) (clean : LocalFlow.nul ∉ text.toList) :
    LocalFlow.nul ∉ filled.toList := by
  have each : ∀ c ∈ filled.toList, c ≠ LocalFlow.nul := by
    refine References.Fills.forall
      (fun name put known => (decimal_put ?_ (by decide) name put known).2) fills ?_
    · rintro c digit rfl
      exact absurd digit (by decide)
    · rintro c member rfl
      exact clean member
  exact fun member => each _ member rfl

theorem digit_solid (c : Char) (digit : c.isDigit = true) : isSpace c = false := by
  have range : 48 ≤ c.toNat ∧ c.toNat ≤ 57 := by
    simp only [Char.isDigit, Bool.and_eq_true, decide_eq_true_eq] at digit
    exact ⟨digit.1, digit.2⟩
  simp only [isSpace, List.mem_cons, List.not_mem_nil, or_false, Bool.or_eq_false_iff,
    decide_eq_false_iff_not,
    Bool.and_eq_false_iff]
  omega

theorem Fills.nonempty (fills : values.Fills text filled) (nonempty : text ≠ "") : filled ≠ "" := by
  rintro rfl
  have empty := (References.Fills.head (P := fun _ => True)
    (decimal_put (fun _ _ => trivial) trivial) fills
    (fun _ _ => trivial)).1 rfl
  exact nonempty (String.toList_inj.mp empty)

theorem Fills.trimmed (fills : values.Fills text filled) (trimmed : Trimmed text.toList) :
    Trimmed filled.toList where
  head := (References.Fills.head (decimal_put digit_solid (by decide)) fills trimmed.head).2
  last := References.Fills.last (decimal_put digit_solid (by decide)) fills trimmed.last

/-- Every reference needs an integer, and nothing else is needed. -/
theorem exists_fills_iff : (∃ filled, values.Fills text filled) ↔
    ∀ name, Mentions name text → ∃ n, values.get? name = some n := by
  have chars : (∃ out, variableName.Fills values.decimal text.toList out) ↔
      ∀ name, variableName.Mentions name text.toList → ∃ put, values.decimal name = some put :=
    fills_iff_mentions (by decide) (by decide) variableName_closes text.toList
  constructor
  · rintro ⟨filled, fills⟩ name mentions
    obtain ⟨put, known⟩ := chars.mp ⟨_, fills⟩ _ mentions
    obtain ⟨n, found, _⟩ := Option.map_eq_some_iff.mp known
    rw [String.ofList_toList] at found
    exact ⟨n, found⟩
  · intro known
    obtain ⟨out, fills⟩ := chars.mpr (fun name mentions => by
      obtain ⟨n, found⟩ := known (String.ofList name) (by simpa [Mentions] using mentions)
      exact ⟨_, by rw [decimal, found]; rfl⟩)
    exact ⟨String.ofList out, by simpa [Fills] using fills⟩

theorem resolveText_iff : values.resolveText text = some filled ↔ values.Fills text filled := by
  refine ⟨resolveText_fills, fun fills => ?_⟩
  rw [resolveText, fills_substitute variableName_closes fills (Nat.le_refl _), Option.map_some,
    String.ofList_toList]

/-- A field that has to stay a string. -/
theorem resolvedString_iff : Store.resolvedString values text = some filled ↔
    (∀ name, ¬ Refers name text) ∧ values.Fills text filled := by
  constructor
  · intro done
    refine ⟨fun name refers => ?_, Store.resolvedString_fills done⟩
    rw [Store.resolvedString, resolve, wholeReference?_iff.mpr refers] at done
    cases found : values.get? name <;> simp [found] at done
  · rintro ⟨partly, fills⟩
    have whole : wholeReference? text = none := by
      rw [Option.eq_none_iff_forall_ne_some]
      exact fun name found => partly name (wholeReference?_iff.mp found)
    rw [Store.resolvedString, resolve, whole, resolveText_iff.mpr fills]
    rfl

/-- An item of a command is written out whatever it becomes. -/
theorem resolvedItem_iff :
    (values.resolve (.str text)).map Json.text = some filled ↔ values.Fills text filled := by
  refine ⟨Store.resolvedItem_fills, fun fills => ?_⟩
  cases whole : wholeReference? text with
  | none =>
    simp [resolve, whole, resolveText_iff.mpr fills, Json.text]
  | some name =>
    have refers := wholeReference?_iff.mp whole
    obtain ⟨n, found⟩ := exists_fills_iff.mp ⟨filled, fills⟩ name (Begins.mentions refers)
    have resolves : (values.resolve (.str text)).map Json.text = some (toString n) := by
      simp [resolve, whole, found, Json.text, Json.repr]
    have same := Store.resolvedItem_fills resolves
    rw [resolves, Option.some.injEq]
    exact String.toList_inj.mp (References.Fills.unique variableName_closes same fills)

end Values

section Lists
variable {values : Values} {names filled other items command : List String}

/-- Names that have to stay strings. -/
theorem resolvedStrings_iff : names.mapM (Store.resolvedString values) = some filled ↔
    (∀ text ∈ names, ∀ name, ¬ Values.Refers name text) ∧ List.Forall₂ values.Fills names filled := by
  simp only [Calls.mapM_iff, Values.resolvedString_iff]
  constructor
  · intro each
    refine ⟨fun text member => ?_, each.imp (fun _ _ both => both.2)⟩
    obtain ⟨_, _, partly, _⟩ := Calls.forall₂_left each text member
    exact partly
  · rintro ⟨partly, each⟩
    induction each with
    | nil => exact .nil
    | cons one _ ih =>
      rw [List.forall_mem_cons] at partly
      exact .cons ⟨partly.1, one⟩ (ih partly.2)

theorem resolvedCommand_iff :
    resolvedCommand values (argv items) = some command ↔ List.Forall₂ values.Fills items command := by
  simp only [resolvedCommand_argv, Calls.mapM_iff, Values.resolvedItem_iff]

theorem exists_fillsAll_iff : (∃ filled, List.Forall₂ values.Fills names filled) ↔
    ∀ text ∈ names, ∀ name, Values.Mentions name text → ∃ n, values.get? name = some n := by
  induction names with
  | nil => simp
  | cons text names ih =>
    rw [List.forall_mem_cons, ← Values.exists_fills_iff, ← ih]
    constructor
    · rintro ⟨_, each⟩
      obtain ⟨one, rest, first, more, _⟩ := List.forall₂_cons_left_iff.mp each
      exact ⟨⟨one, first⟩, rest, more⟩
    · rintro ⟨⟨one, first⟩, rest, more⟩
      exact ⟨_, .cons first more⟩

theorem fillsAll_unique (one : List.Forall₂ values.Fills names filled)
    (two : List.Forall₂ values.Fills names other) :
    filled = other := by
  induction one generalizing other with
  | nil => exact (List.forall₂_nil_left_iff.mp two).symm
  | cons first _ ih =>
    obtain ⟨b, rest, second, more, rfl⟩ := List.forall₂_cons_left_iff.mp two
    have same := String.toList_inj.mp (References.Fills.unique variableName_closes first second)
    rw [same, ih more]

/-- Deferred values leave trimmed names trimmed. -/
theorem fills_strip (trimmed : ∀ item ∈ names, Trimmed item.toList)
    (each : List.Forall₂ values.Fills names filled) : filled.map strip = filled := by
  induction each with
  | nil => rfl
  | cons one _ ih =>
    rw [List.forall_mem_cons] at trimmed
    rw [List.map_cons, strip_trimmed (Values.Fills.trimmed one trimmed.1), ih trimmed.2]

end Lists

end LocalFlow
