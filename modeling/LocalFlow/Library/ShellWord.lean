import LocalFlow.Library.References

/-! Words of a POSIX shell: quoting a text as one word, and reading one word back the way the shell
does. Filling the references of a quoted text fills the text that the shell reads. -/
namespace ShellWord

def singleQuote : Char := Char.ofNat 39
def doubleQuote : Char := Char.ofNat 34

/-- Characters that mean themselves to the shell. -/
def safe (c : Char) : Bool := c.isAlphanum || "_@%+=:,./-".toList.contains c

/-- A single quote inside single quotes: close them, quote it doubly, open them again. -/
def escaped (c : Char) : List Char :=
  if c = singleQuote then [singleQuote, doubleQuote, singleQuote, doubleQuote, singleQuote] else [c]

def escape (text : List Char) : List Char := text.flatMap escaped

/-- `text` as one word. -/
def quote (text : List Char) : List Char :=
  if text ≠ [] ∧ text.all safe = true then text else singleQuote :: escape text ++ [singleQuote]

/-- Where the reader stands: outside quotes, between single ones or between double ones. -/
inductive Mode where
  | bare | single | double
  deriving DecidableEq, Repr

/-- Between double quotes these mean something else to the shell; this reader does not follow. -/
def expands (c : Char) : Bool := "$`\\!".toList.contains c

/-- The word the text begins with, and what follows it. -/
def read : Mode → List Char → Option (List Char × List Char)
  | .bare, [] => some ([], [])
  | .bare, c :: rest =>
    if c = singleQuote then read .single rest
    else if c = doubleQuote then read .double rest
    else if safe c then (read .bare rest).map (fun found => (c :: found.1, found.2))
    else some ([], c :: rest)
  | .single, [] => none
  | .single, c :: rest =>
    if c = singleQuote then read .bare rest
    else (read .single rest).map (fun found => (c :: found.1, found.2))
  | .double, [] => none
  | .double, c :: rest =>
    if c = doubleQuote then read .bare rest
    else if expands c then none
    else (read .double rest).map (fun found => (c :: found.1, found.2))

/-- A character that ends a word. -/
structure Ends (c : Char) : Prop where
  safe : safe c = false
  single : c ≠ singleQuote
  double : c ≠ doubleQuote

variable {text rest : List Char} {c : Char}

theorem ends_space : Ends ' ' := ⟨by decide, by decide, by decide⟩
theorem ends_newline : Ends '\n' := ⟨by decide, by decide, by decide⟩

theorem read_ends (ends : Ends c) : read .bare (c :: rest) = some ([], c :: rest) := by
  simp [read, ends.single, ends.double, ends.safe]

theorem safe_not_quote (plain : safe c = true) : c ≠ singleQuote ∧ c ≠ doubleQuote := by
  constructor
  · rintro rfl
    exact absurd plain (by decide)
  · rintro rfl
    exact absurd plain (by decide)

theorem read_safe (plain : text.all safe = true) : read .bare (text ++ rest) =
    (read .bare rest).map (fun found => (text ++ found.1, found.2)) := by
  induction text with
  | nil => simp
  | cons c text ih =>
    rw [List.all_cons, Bool.and_eq_true] at plain
    obtain ⟨single, double⟩ := safe_not_quote plain.1
    have later := ih plain.2
    simp [read, single, double, plain.1, later, Function.comp_def]

@[simp] theorem escape_nil : escape [] = [] := rfl

theorem escape_cons (c : Char) (text : List Char) : escape (c :: text) = escaped c ++ escape text := rfl

theorem escape_append (front text : List Char) :
    escape (front ++ text) = escape front ++ escape text := by
  simp [escape]

theorem escaped_other (other : c ≠ singleQuote) : escaped c = [c] := by
  simp [escaped, other]

theorem escape_unquoted (unquoted : singleQuote ∉ text) : escape text = text := by
  induction text with
  | nil => rfl
  | cons c text ih =>
    rw [List.mem_cons, not_or] at unquoted
    rw [escape_cons, escaped_other (Ne.symm unquoted.1), ih unquoted.2]
    rfl

/-- Between single quotes the shell reads an escaped text as the text. -/
theorem read_escape (text rest : List Char) : read .single (escape text ++ singleQuote :: rest) =
    (read .bare rest).map (fun found => (text ++ found.1, found.2)) := by
  induction text with
  | nil => simp [read]
  | cons c text ih =>
    by_cases isQuote : c = singleQuote
    · subst isQuote
      have apart : singleQuote ≠ doubleQuote := by decide
      have plain : expands singleQuote = false := by decide
      simp [escape_cons, escaped, read, apart, apart.symm, plain, ih, Function.comp_def]
    · simp [escape_cons, escaped_other isQuote, read, isQuote, ih, Function.comp_def]

section Filling
open References
variable {syn : References} {value : List Char → Option (List Char)} {out : List Char}

theorem escape_front {front tail : List Char} (unquoted : singleQuote ∉ front)
    (whole : escape text = front ++ tail) : ∃ after, text = front ++ after ∧ tail = escape after := by
  induction front generalizing text with
  | nil => exact ⟨text, rfl, whole.symm⟩
  | cons c front ih =>
    rw [List.mem_cons, not_or] at unquoted
    cases text with
    | nil => cases whole
    | cons first text =>
      by_cases isQuote : first = singleQuote
      · subst isQuote
        simp only [escape_cons, escaped, if_true, List.cons_append, List.cons.injEq] at whole
        exact absurd whole.1 unquoted.1
      · rw [escape_cons, escaped_other isQuote, List.singleton_append, List.cons_append,
          List.cons.injEq] at whole
        obtain ⟨rfl, others⟩ := whole
        obtain ⟨after, rfl, same⟩ := ih unquoted.2 others
        exact ⟨after, rfl, same⟩

theorem escape_begins (inert : syn.Inert singleQuote) {name after : List Char}
    (begins : syn.Begins name after text) : syn.Begins name (escape after) (escape text) where
  named := begins.named
  text := by
    rw [begins.spelled, escape_append, escape_unquoted (inert.not_mem_spelled begins.named)]
    simp [spelled]

/-- Filling an escaped text escapes the filled one: neither references nor their values hold quotes. -/
theorem fills_escape (inert : syn.Inert singleQuote)
    (unquoted : ∀ name put, value name = some put → singleQuote ∉ put) :
    ∀ (text : List Char) {out : List Char}, syn.Fills value (escape text) out →
      ∃ filled, out = escape filled ∧ syn.Fills value text filled
  | [], out, fills => ⟨[], fills_nil.mp fills, .nil⟩
  | c :: text, out, fills => by
    by_cases isQuote : c = singleQuote
    · subst isQuote
      have plain : '$' ∉ escaped singleQuote := by decide
      obtain ⟨tail, rfl, later⟩ := (fills_plain_append plain).mp fills
      obtain ⟨filled, rfl, done⟩ := fills_escape inert unquoted text later
      exact ⟨singleQuote :: filled, rfl, (fills_cons inert.dollar).mpr ⟨filled, rfl, done⟩⟩
    · have same : escape (c :: text) = c :: escape text := by
        rw [escape_cons, escaped_other isQuote]; rfl
      rw [same] at fills
      cases fills with
      | @reference name after _ put out begins known later =>
        obtain ⟨tail, whole, rest⟩ :=
          escape_front (inert.not_mem_spelled begins.named) (same.trans begins.spelled)
        have shorter := congrArg List.length whole
        subst rest
        obtain ⟨filled, rfl, done⟩ := fills_escape inert unquoted tail later
        refine ⟨put ++ filled, ?_, ?_⟩
        · rw [escape_append, escape_unquoted (unquoted name put known)]
        · rw [whole]
          exact .reference ⟨begins.named, by simp [spelled]⟩ known done
      | @char _ _ out absent later =>
        obtain ⟨filled, rfl, done⟩ := fills_escape inert unquoted text later
        refine ⟨c :: filled, by rw [escape_cons, escaped_other isQuote]; rfl,
          .char (fun name after begins => ?_) done⟩
        have escapes := escape_begins inert begins
        rw [same] at escapes
        exact absent _ _ escapes
termination_by text => text.length
decreasing_by
  · simp
  · simp only [List.length_append, List.length_cons, spelled] at shorter ⊢
    omega
  · simp

theorem safe_plain (plain : text.all safe = true) : '$' ∉ text := by
  intro member
  exact absurd (List.all_eq_true.mp plain _ member) (by decide)

/-- The shell reads a quoted text with its references filled as the filled text. -/
theorem fills_quote (inert : syn.Inert singleQuote)
    (unquoted : ∀ name put, value name = some put → singleQuote ∉ put) (ends : Ends c) (plain : c ≠ '$')
    (fills : syn.Fills value (quote text ++ c :: rest) out) :
    ∃ filled tail, syn.Fills value text filled ∧
      syn.Fills value rest tail ∧ read .bare out = some (filled, c :: tail) := by
  by_cases allSafe : text ≠ [] ∧ text.all safe = true
  · rw [quote, if_pos allSafe, fills_plain_append (safe_plain allSafe.2)] at fills
    obtain ⟨tail, rfl, later⟩ := fills
    obtain ⟨tail, rfl, done⟩ := (fills_cons plain).mp later
    refine ⟨text, tail, (fills_plain (safe_plain allSafe.2)).mpr rfl, done, ?_⟩
    rw [read_safe allSafe.2, read_ends ends]
    simp
  · rw [quote, if_neg allSafe, List.append_assoc, List.cons_append, List.singleton_append,
      fills_cons inert.dollar] at fills
    obtain ⟨tail, rfl, later⟩ := fills
    obtain ⟨head, tail, rfl, one, two⟩ := later.split inert
    obtain ⟨tail, rfl, done⟩ := (fills_cons plain).mp two
    obtain ⟨filled, rfl, whole⟩ := fills_escape inert unquoted text one
    refine ⟨filled, tail, whole, done, ?_⟩
    have opens : read .bare (singleQuote :: (escape filled ++ singleQuote :: c :: tail)) =
      read .single (escape filled ++ singleQuote :: c :: tail) := by simp [read]
    rw [opens, read_escape, read_ends ends]
    simp

end Filling

end ShellWord
