import LocalFlow.Library.Lifting
import Mathlib.Data.List.TakeWhile
import Mathlib.Data.String.Basic

/-! Text with references to named values: a dollar sign and a name between braces. Substitution
replaces the leftmost references and leaves every other character as it is. -/

/-- Which characters may begin a name and which may follow. -/
structure References where
  start : Char → Bool
  more : Char → Bool

namespace References

def opening : Char := Char.ofNat 123
def closing : Char := Char.ofNat 125

variable (syn : References)

def Named (name : List Char) : Prop :=
  ∃ first rest, name = first :: rest ∧ syn.start first = true ∧ ∀ c ∈ rest, syn.more c = true

/-- A reference to `name` begins the text and `after` is what follows it. -/
structure Begins (name after text : List Char) : Prop where
  named : syn.Named name
  text : text = '$' :: opening :: name ++ closing :: after

/-- The reference that begins the text, and what follows it. -/
def reference? : List Char → Option (List Char × List Char)
  | dollar :: brace :: first :: rest =>
    if dollar = '$' ∧ brace = opening ∧ syn.start first = true then
      match rest.dropWhile syn.more with
      | last :: after =>
        if last = closing then some (first :: rest.takeWhile syn.more, after) else none
      | [] => none
    else none
  | _ => none

/-- `fuel` bounds the number of characters. -/
def substitute (value : List Char → Option (List Char)) : Nat → List Char → Option (List Char)
  | _, [] => some []
  | 0, _ :: _ => none
  | fuel + 1, c :: rest =>
    match syn.reference? (c :: rest) with
    | some (name, after) => do
      let text ← value name
      let out ← substitute value fuel after
      some (text ++ out)
    | none => do
      let out ← substitute value fuel rest
      some (c :: out)

/-- What replacing every reference in the text by its value gives. -/
inductive Fills (value : List Char → Option (List Char)) : List Char → List Char → Prop where
  | nil : Fills value [] []
  | reference {name after text put out : List Char} : syn.Begins name after text →
      value name = some put →
      Fills value after out → Fills value text (put ++ out)
  | char {c : Char} {rest out : List Char} : (∀ name after, ¬ syn.Begins name after (c :: rest)) →
      Fills value rest out → Fills value (c :: rest) (c :: out)

variable {syn} {name after text : List Char}

theorem reference?_begins (found : syn.reference? text = some (name, after)) :
    syn.Begins name after text := by
  unfold reference? at found
  split at found
  · rename_i dollar brace first rest
    split at found
    · rename_i opens
      obtain ⟨rfl, rfl, begins⟩ := opens
      split at found
      · rename_i last tail dropped
        split at found
        · rename_i closes
          subst closes
          cases found
          refine ⟨⟨first, _, rfl, begins, fun c member => List.mem_takeWhile_imp member⟩, ?_⟩
          have whole := List.takeWhile_append_dropWhile (p := syn.more) (l := rest)
          rw [dropped] at whole
          simp [whole]
        · cases found
      · cases found
    · cases found
  · cases found

theorem begins_reference? (closes : syn.more closing = false) (begins : syn.Begins name after text) :
    syn.reference? text = some (name, after) := by
  obtain ⟨⟨first, rest, rfl, starts, others⟩, rfl⟩ := begins
  have dropped : (rest ++ closing :: after).dropWhile syn.more = closing :: after := by
    rw [List.dropWhile_append_of_pos others, List.dropWhile_cons_of_neg (by simp [closes])]
  have taken : (rest ++ closing :: after).takeWhile syn.more = rest := by
    rw [List.takeWhile_append_of_pos others, List.takeWhile_cons_of_neg (by simp [closes])]
    simp
  simp [reference?, starts, dropped, taken]

theorem after_shorter (begins : syn.Begins name after text) : after.length < text.length := by
  rw [begins.text]
  simp
  omega

/-- Substitution replaces every reference, or meets one that has no value. -/
theorem substitute_fills (closes : syn.more closing = false)
    {value : List Char → Option (List Char)} {fuel : Nat}
    {out : List Char} (done : syn.substitute value fuel text = some out) :
    syn.Fills value text out := by
  induction fuel generalizing text out with
  | zero =>
    cases text with
    | nil =>
      cases done
      exact .nil
    | cons c rest => cases done
  | succ fuel ih =>
    cases text with
    | nil =>
      cases done
      exact .nil
    | cons c rest =>
      unfold substitute at done
      split at done
      · rename_i name after found
        simp only [Option.bind_eq_bind, Option.bind_eq_some_iff, Option.some.injEq] at done
        obtain ⟨put, known, tail, later, rfl⟩ := done
        exact .reference (reference?_begins found) known (ih later)
      · rename_i absent
        simp only [Option.bind_eq_bind, Option.bind_eq_some_iff, Option.some.injEq] at done
        obtain ⟨tail, later, rfl⟩ := done
        refine .char (fun name after begins => ?_) (ih later)
        rw [begins_reference? closes begins] at absent
        cases absent

/-- Text whose references all have a value is substituted. -/
theorem fills_substitute {value : List Char → Option (List Char)} {out : List Char}
    (closes : syn.more closing = false) (fills : syn.Fills value text out) {fuel : Nat}
    (enough : text.length ≤ fuel) : syn.substitute value fuel text = some out := by
  induction fills generalizing fuel with
  | nil => cases fuel <;> rfl
  | @reference name after text put out begins known _ ih =>
    have shorter := after_shorter begins
    have found := begins_reference? closes begins
    cases text with
    | nil => simp at shorter
    | cons c rest =>
      cases fuel with
      | zero => simp at enough
      | succ fuel =>
        have later : syn.substitute value fuel after = some out := by
          apply ih
          simp only [List.length_cons] at shorter enough
          omega
        simp [substitute, found, known, later]
  | @char c rest out absent _ ih =>
    cases fuel with
    | zero => simp at enough
    | succ fuel =>
      have missing : syn.reference? (c :: rest) = none := by
        rw [Option.eq_none_iff_forall_ne_some]
        rintro ⟨name, after⟩ found
        exact absent name after (reference?_begins found)
      have later : syn.substitute value fuel rest = some out := ih (by simpa using enough)
      simp [substitute, missing, later]

section Splitting
variable (syn : References)

/-- A character that no reference contains. -/
structure Inert (c : Char) : Prop where
  dollar : c ≠ '$'
  opening : c ≠ opening
  closing : c ≠ closing
  start : syn.start c = false
  more : syn.more c = false

/-- The characters of a reference to `name`. -/
def spelled (name : List Char) : List Char := '$' :: opening :: name ++ [closing]

variable {syn} {c : Char} {value : List Char → Option (List Char)} {out : List Char}

theorem Begins.spelled (begins : syn.Begins name after text) : text = spelled name ++ after := by
  rw [begins.text]
  simp [References.spelled]

theorem Inert.not_mem_spelled (inert : syn.Inert c) (named : syn.Named name) : c ∉ spelled name := by
  obtain ⟨first, rest, rfl, starts, others⟩ := named
  simp only [References.spelled, List.cons_append, List.mem_cons, List.mem_append,
    List.not_mem_nil, or_false,
    not_or]
  refine ⟨inert.dollar, inert.opening, ?_, fun member => ?_, inert.closing⟩
  · rintro rfl
    rw [inert.start] at starts
    cases starts
  · have allowed := others c member
    rw [inert.more] at allowed
    cases allowed

theorem Begins.append (begins : syn.Begins name after text) (tail : List Char) :
    syn.Begins name (after ++ tail) (text ++ tail) where
  named := begins.named
  text := by
    rw [begins.text]
    simp

theorem not_begins_of_ne (other : c ≠ '$') {rest : List Char} :
    ¬ syn.Begins name after (c :: rest) := by
  intro begins
  have head := begins.text
  rw [List.cons_append] at head
  exact other (List.cons.inj head).1

/-- A character that starts no reference stays where it is. -/
theorem fills_cons (other : c ≠ '$') {rest : List Char} :
    syn.Fills value (c :: rest) out ↔ ∃ tail, out = c :: tail ∧ syn.Fills value rest tail := by
  constructor
  · intro fills
    cases fills with
    | reference begins => exact absurd begins (not_begins_of_ne other)
    | char _ later => exact ⟨_, rfl, later⟩
  · rintro ⟨tail, rfl, later⟩
    exact .char (fun _ _ => not_begins_of_ne other) later

/-- Every dollar sign is followed, within the text, by something else than an opening brace. -/
def settled : List Char → Bool
  | [] => true
  | c :: rest => (c ≠ '$' || rest.head?.any (· ≠ opening)) && settled rest

theorem settled_of_plain (plain : '$' ∉ text) : settled text = true := by
  induction text with
  | nil => rfl
  | cons c rest ih =>
    rw [List.mem_cons, not_or] at plain
    simp [settled, ih plain.2, Ne.symm plain.1]

/-- Text in which no reference starts stays in front of what follows. -/
theorem fills_settled_append {front rest : List Char} (fixed : settled front = true) :
    syn.Fills value (front ++ rest) out ↔ ∃ tail, out = front ++ tail ∧ syn.Fills value rest tail := by
  induction front generalizing out with
  | nil => simp
  | cons c front ih =>
    rw [settled, Bool.and_eq_true] at fixed
    have absent : ∀ name after, ¬ syn.Begins name after (c :: (front ++ rest)) := by
      intro name after begins
      have text := begins.text
      cases front with
      | nil =>
        obtain rfl := (List.cons.inj text).1
        simp at fixed
      | cons next front =>
        simp only [List.cons_append, List.cons.injEq] at text
        obtain ⟨rfl, rfl, _⟩ := text
        simp at fixed
    rw [List.cons_append]
    constructor
    · intro fills
      cases fills with
      | reference begins => exact absurd begins (absent _ _)
      | char _ later =>
        obtain ⟨tail, rfl, done⟩ := (ih fixed.2).mp later
        exact ⟨tail, rfl, done⟩
    · rintro ⟨tail, rfl, later⟩
      exact .char absent ((ih fixed.2).mpr ⟨tail, rfl, later⟩)

theorem fills_plain_append {front rest : List Char} (plain : '$' ∉ front) :
    syn.Fills value (front ++ rest) out ↔ ∃ tail, out = front ++ tail ∧ syn.Fills value rest tail :=
  fills_settled_append (settled_of_plain plain)

theorem fills_nil : syn.Fills value [] out ↔ out = [] := by
  constructor
  · intro fills
    cases fills with
    | nil => rfl
    | reference begins => cases begins.text
  · rintro rfl
    exact .nil

/-- Text without a dollar sign is its own filling. -/
theorem fills_plain (plain : '$' ∉ text) : syn.Fills value text out ↔ out = text := by
  have split : syn.Fills value (text ++ []) out ↔ ∃ tail, out = text ++ tail ∧
    syn.Fills value [] tail :=
    fills_plain_append plain
  rw [List.append_nil] at split
  simp [split, fills_nil]

/-- References do not reach across an inert character. -/
theorem Fills.split (inert : syn.Inert c) {front rest : List Char}
    (fills : syn.Fills value (front ++ c :: rest) out) : ∃ head tail, out = head ++ c :: tail ∧
      syn.Fills value front head ∧ syn.Fills value rest tail := by
  generalize whole : front ++ c :: rest = text at fills
  induction fills generalizing front with
  | nil => simp at whole
  | @reference name after text put out begins known later ih =>
    have absent := inert.not_mem_spelled begins.named
    rw [begins.spelled] at whole
    obtain ⟨middle, within, beyond⟩ | ⟨middle, rfl, beyond⟩ := List.append_eq_append_iff.mp whole
    · cases middle with
      | nil =>
        rw [List.append_nil] at within
        obtain ⟨head, tail, rfl, one, two⟩ := ih (show [] ++ c :: rest = after from beyond)
        refine ⟨put ++ head, tail, by simp, ?_, two⟩
        rw [fills_nil.mp one]
        exact .reference ⟨begins.named, by simp [← within, References.spelled]⟩ known .nil
      | cons first middle =>
        rw [within, (List.cons.inj beyond).1] at absent
        simp at absent
    · obtain ⟨head, tail, rfl, one, two⟩ := ih beyond.symm
      exact ⟨put ++ head, tail, by simp,
        .reference ⟨begins.named, by simp [References.spelled]⟩ known one, two⟩
  | @char first others out absent later ih =>
    cases front with
    | nil =>
      cases whole
      exact ⟨[], out, rfl, .nil, later⟩
    | cons second front =>
      cases whole
      obtain ⟨head, tail, rfl, one, two⟩ := ih (rfl : front ++ c :: rest = _)
      exact ⟨first :: head, tail, rfl,
        .char (fun name after begins => absent _ _ (begins.append (c :: rest))) one, two⟩

/-- A text has at most one filling. -/
theorem Fills.unique (closes : syn.more closing = false) {other : List Char}
    (fills : syn.Fills value text out)
    (again : syn.Fills value text other) : out = other := by
  have one := fills_substitute closes fills (Nat.le_refl text.length)
  rw [fills_substitute closes again (Nat.le_refl text.length)] at one
  exact (Option.some.inj one).symm

end Splitting

section Mentions
variable (syn : References)

/-- The text refers to `name` somewhere. -/
def Mentions (name text : List Char) : Prop :=
  ∃ front after, text = front ++ spelled name ++ after ∧ syn.Named name

variable {syn} {c : Char} {value : List Char → Option (List Char)} {out : List Char}

theorem Begins.mentions (begins : syn.Begins name after text) : syn.Mentions name text :=
  ⟨[], after, begins.spelled, begins.named⟩

theorem Mentions.append_left (mentions : syn.Mentions name text) (front : List Char) :
    syn.Mentions name (front ++ text) := by
  obtain ⟨before, after, rfl, named⟩ := mentions
  exact ⟨front ++ before, after, by simp, named⟩

/-- What follows the first dollar sign of a reference holds no other one. -/
theorem dollar_spelled (starts : syn.start '$' = false) (more : syn.more '$' = false)
    (named : syn.Named name)
    {front rest : List Char} (whole : spelled name = front ++ '$' :: rest) : front = [] := by
  cases front with
  | nil => rfl
  | cons first front =>
    have member : '$' ∈ opening :: name ++ [closing] := by
      have tail : opening :: name ++ [closing] = front ++ '$' :: rest := (List.cons.inj whole).2
      rw [tail]
      simp
    obtain ⟨initial, others, rfl, begins, follow⟩ := named
    simp only [List.cons_append, List.mem_cons, List.mem_append, List.not_mem_nil, or_false] at member
    rcases member with brace | head | middle | brace
    · exact absurd brace (by decide)
    · rw [← head, starts] at begins
      cases begins
    · have allowed := follow _ middle
      rw [more] at allowed
      cases allowed
    · exact absurd brace (by decide)

/-- A reference at the head is the only one that reaches past it. -/
theorem Begins.mentions_after (starts : syn.start '$' = false) (more : syn.more '$' = false)
    (closes : syn.more closing = false) {other : List Char} (begins : syn.Begins name after text)
    (mentions : syn.Mentions other text) : other = name ∨ syn.Mentions other after := by
  obtain ⟨front, rest, whole, named⟩ := mentions
  rw [begins.spelled, List.append_assoc] at whole
  obtain ⟨middle, rfl, beyond⟩ | ⟨middle, within, beyond⟩ := List.append_eq_append_iff.mp whole
  · refine .inr ⟨middle, rest, ?_, named⟩
    rw [beyond, List.append_assoc]
  · cases middle with
    | nil =>
      refine .inr ⟨[], rest, ?_, named⟩
      simpa using beyond.symm
    | cons first middle =>
      have head : first = '$' := (List.cons.inj beyond).1.symm
      rw [head] at within
      obtain rfl := dollar_spelled starts more begins.named within
      have again : syn.Begins other rest text := ⟨named, by
        rw [begins.spelled, whole]
        simp [References.spelled]⟩
      have one := begins_reference? closes begins
      rw [begins_reference? closes again] at one
      exact .inl (congrArg Prod.fst (Option.some.inj one))

theorem Mentions.tail {rest : List Char} (mentions : syn.Mentions name (c :: rest))
    (absent : ∀ name after, ¬ syn.Begins name after (c :: rest)) : syn.Mentions name rest := by
  obtain ⟨front, after, whole, named⟩ := mentions
  cases front with
  | nil => exact absurd ⟨named, by simpa [spelled] using whole⟩ (absent name after)
  | cons first front =>
    rw [List.cons_append, List.cons_append] at whole
    exact ⟨front, after, (List.cons.inj whole).2, named⟩

/-- Filling needs a value for every name the text refers to, and nothing else. -/
theorem fills_iff_mentions (starts : syn.start '$' = false) (more : syn.more '$' = false)
    (closes : syn.more closing = false) : ∀ text : List Char,
    (∃ out, syn.Fills value text out) ↔ ∀ name, syn.Mentions name text → ∃ put, value name = some put
  | [] => by
    refine iff_of_true ⟨[], .nil⟩ (fun name mentions => ?_)
    obtain ⟨front, after, whole, _⟩ := mentions
    simp [spelled] at whole
  | c :: rest => by
    by_cases referred : ∃ name after, syn.Begins name after (c :: rest)
    · obtain ⟨name, after, begins⟩ := referred
      have shorter := after_shorter begins
      have later := fills_iff_mentions starts more closes after
      constructor
      · rintro ⟨out, fills⟩ other mentions
        cases fills with
        | char absent => exact absurd begins (absent _ _)
        | reference again known done =>
          have same := begins_reference? closes begins
          rw [begins_reference? closes again] at same
          cases same
          rcases begins.mentions_after starts more closes mentions with rfl | beyond
          · exact ⟨_, known⟩
          · exact later.mp ⟨_, done⟩ other beyond
      · intro known
        obtain ⟨put, isPut⟩ := known name begins.mentions
        obtain ⟨out, fills⟩ := later.mpr (fun other mentions => known other (by
          rw [begins.spelled]
          exact mentions.append_left _))
        exact ⟨put ++ out, .reference begins isPut fills⟩
    · have absent : ∀ name after, ¬ syn.Begins name after (c :: rest) :=
        fun name after begins => referred ⟨name, after, begins⟩
      have later := fills_iff_mentions starts more closes rest
      constructor
      · rintro ⟨out, fills⟩ other mentions
        cases fills with
        | reference begins => exact absurd begins (absent _ _)
        | char _ done => exact later.mp ⟨_, done⟩ other (mentions.tail absent)
      · intro known
        obtain ⟨out, fills⟩ := later.mpr (fun other mentions => known other (mentions.append_left [c]))
        exact ⟨c :: out, .char absent fills⟩
termination_by text => text.length
decreasing_by
  · exact shorter
  · exact Nat.lt_succ_self _

/-- What holds of every character of the text and of the values holds of every character filled in. -/
theorem Fills.forall {P : Char → Prop} (values : ∀ name put, value name = some put → ∀ c ∈ put, P c)
    (fills : syn.Fills value text out) (chars : ∀ c ∈ text, P c) : ∀ c ∈ out, P c := by
  induction fills with
  | nil => exact chars
  | @reference name after text put out begins known _ ih =>
    rw [begins.spelled] at chars
    intro c member
    rcases List.mem_append.mp member with here | later
    · exact values _ _ known c here
    · exact ih (fun c member => chars c (List.mem_append_right _ member)) c later
  | char _ _ ih =>
    rw [List.forall_mem_cons] at chars ⊢
    exact ⟨chars.1, ih chars.2⟩

/-- Where no value is empty, the first character is the text's own or a value's. -/
theorem Fills.head {P : Char → Prop}
    (values : ∀ name put, value name = some put → put ≠ [] ∧ ∀ c ∈ put, P c)
    (fills : syn.Fills value text out) (head : ∀ c, text.head? = some c → P c) :
    (out = [] → text = []) ∧ ∀ c, out.head? = some c → P c := by
  cases fills with
  | nil => exact ⟨fun _ => rfl, head⟩
  | @reference name after _ put tail begins known _ =>
    obtain ⟨filled, each⟩ := values _ _ known
    refine ⟨fun empty => absurd (List.append_eq_nil_iff.mp empty).1 filled, fun c isHead => ?_⟩
    rw [List.head?_append_of_ne_nil _ filled] at isHead
    exact each c (List.mem_of_mem_head? isHead)
  | char _ _ => exact ⟨fun empty => absurd empty (List.cons_ne_nil _ _), head⟩

theorem Fills.last {P : Char → Prop}
    (values : ∀ name put, value name = some put → put ≠ [] ∧ ∀ c ∈ put, P c)
    (fills : syn.Fills value text out) (last : ∀ c, text.getLast? = some c → P c) :
    ∀ c, out.getLast? = some c → P c := by
  induction fills with
  | nil => exact last
  | @reference name after text put out begins known later ih =>
    obtain ⟨filled, each⟩ := values _ _ known
    intro c isLast
    cases out with
    | nil =>
      rw [List.append_nil] at isLast
      exact each c (List.mem_of_getLast? isLast)
    | cons first out =>
      rw [List.getLast?_append_of_ne_nil _ (List.cons_ne_nil _ _)] at isLast
      refine ih (fun c isLast => last c ?_) c isLast
      have some : after ≠ [] := by
        rintro rfl
        exact absurd (fills_nil.mp later) (List.cons_ne_nil _ _)
      rw [begins.spelled, List.getLast?_append_of_ne_nil _ some]
      exact isLast
  | @char first rest out absent later ih =>
    intro c isLast
    cases out with
    | nil =>
      have empty : rest = [] := (later.head (P := fun _ => True)
        (fun name put known => ⟨(values name put known).1, fun _ _ => trivial⟩)
          (fun _ _ => trivial)).1 rfl
      rw [empty] at last
      exact last c isLast
    | cons second out =>
      rw [List.getLast?_cons_cons] at isLast
      refine ih (fun c isLast => last c ?_) c isLast
      cases rest with
      | nil => cases isLast
      | cons third rest =>
        rw [List.getLast?_cons_cons]
        exact isLast

/-- Where no value holds a dollar sign, filling takes one away for every reference. -/
theorem Fills.count (plain : ∀ name put, value name = some put → '$' ∉ put)
    (fills : syn.Fills value text out) :
    out.count '$' ≤ text.count '$' ∧ ∀ name, syn.Mentions name text →
      out.count '$' < text.count '$' := by
  induction fills with
  | nil =>
    refine ⟨Nat.le_refl _, fun name mentions => ?_⟩
    obtain ⟨front, after, whole, _⟩ := mentions
    simp [References.spelled] at whole
  | @reference name after text put out begins known _ ih =>
    have none : put.count '$' = 0 := List.count_eq_zero.mpr (plain _ _ known)
    have one : 0 < (References.spelled name).count '$' :=
      List.count_pos_iff.mpr (by simp [References.spelled])
    rw [begins.spelled, List.count_append, List.count_append, none]
    have rest := ih.1
    exact ⟨by omega, fun _ _ => by omega⟩
  | @char first rest out absent _ ih =>
    rw [List.count_cons, List.count_cons]
    refine ⟨Nat.add_le_add_right ih.1 _, fun name mentions => ?_⟩
    exact Nat.add_lt_add_right (ih.2 name (mentions.tail absent)) _

/-- A text fills to itself exactly when it refers to nothing. -/
theorem fills_self_iff (plain : ∀ name put, value name = some put → '$' ∉ put) :
    syn.Fills value text text ↔ ∀ name, ¬ syn.Mentions name text := by
  constructor
  · intro fills name mentions
    exact Nat.lt_irrefl _ ((fills.count plain).2 name mentions)
  · intro absent
    induction text with
    | nil => exact .nil
    | cons c rest ih =>
      refine .char (fun name after begins => absent name begins.mentions) (ih (fun name mentions => ?_))
      exact absent name (mentions.append_left [c])

end Mentions

section Computed
variable (syn : References)

/-- Substitution by values that are computed one after the other. `fuel` bounds the number of
characters. -/
def substituteIn {m : Type → Type} [Monad m] (value : List Char → m (List Char)) :
    Nat → List Char → m (List Char)
  | _, [] => pure []
  | 0, text => pure text
  | fuel + 1, c :: rest =>
    match syn.reference? (c :: rest) with
    | some (name, after) => do
      let put ← value name
      let out ← substituteIn value fuel after
      pure (put ++ out)
    | none => do
      let out ← substituteIn value fuel rest
      pure (c :: out)

variable {syn}

theorem substituteIn_option {value : List Char → Option (List Char)} {fuel : Nat}
    (enough : text.length ≤ fuel) :
    syn.substituteIn value fuel text = syn.substitute value fuel text := by
  induction fuel generalizing text with
  | zero =>
    obtain rfl := List.length_eq_zero_iff.mp (Nat.le_zero.mp enough)
    rfl
  | succ fuel ih =>
    cases text with
    | nil => rfl
    | cons c rest =>
      have short : rest.length ≤ fuel := Nat.le_of_succ_le_succ enough
      rw [substituteIn, substitute]
      cases found : syn.reference? (c :: rest) with
      | none =>
        dsimp only
        rw [ih short]
        rfl
      | some pair =>
        have shorter := after_shorter (reference?_begins found)
        rw [List.length_cons] at shorter
        dsimp only
        rw [ih (by omega)]
        rfl

/-- Related values of the names a text refers to give related substitutions. -/
theorem substituteIn_lifts {m n : Type → Type} [Monad m] [Monad n] {T : ∀ α : Type, m α → n α → Prop}
    (lifts : Lifts m n T) {value : List Char → m (List Char)} {value' : List Char → n (List Char)}
    {fuel : Nat}
    (related : ∀ name, syn.Mentions name text → T (List Char) (value name) (value' name)) :
    T (List Char) (syn.substituteIn value fuel text) (syn.substituteIn value' fuel text) := by
  induction fuel generalizing text with
  | zero => cases text <;> exact lifts.pure _
  | succ fuel ih =>
    cases text with
    | nil => exact lifts.pure _
    | cons c rest =>
      rw [substituteIn, substituteIn]
      cases found : syn.reference? (c :: rest) with
      | none => exact lifts.map (ih (fun name mentions => related name (mentions.append_left [c]))) _
      | some pair =>
        have begins := reference?_begins found
        refine lifts.map₂ (related _ begins.mentions) (ih (fun name mentions => related name ?_)) _
        rw [begins.spelled]
        exact mentions.append_left _

end Computed

end References
