import LocalFlow.Library.ShellWord
import Mathlib.Data.List.Infix

/-! What stands after the first occurrence of a separator in a list, and the occurrences of a
separator in a quoted word. -/
namespace Splitting
variable {α : Type*} [DecidableEq α]

/-- `text.split(sep, 1)[1]`. -/
def after (sep : List α) : List α → Option (List α)
  | [] => if sep = [] then some [] else none
  | a :: text => if sep.isPrefixOf (a :: text) then some ((a :: text).drop sep.length)
      else after sep text

section General
variable {sep front text rest : List α} {a first : α}

theorem after_cons (absent : ¬ sep <+: a :: text) : after sep (a :: text) = after sep text := by
  rw [after, if_neg (fun isPrefix => absent (List.isPrefixOf_iff_prefix.mp isPrefix))]

theorem after_start (starts : sep <+: text) : after sep text = some (text.drop sep.length) := by
  cases text with
  | nil =>
    obtain rfl := List.prefix_nil.mp starts
    rfl
  | cons a text => rw [after, if_pos (List.isPrefixOf_iff_prefix.mpr starts)]

theorem after_here (sep rest : List α) : after sep (sep ++ rest) = some rest := by
  rw [after_start (List.prefix_append sep rest), List.drop_left]

theorem after_eq_none_iff : after sep text = none ↔ ¬ sep <:+: text := by
  induction text with
  | nil =>
    rw [after, List.infix_nil]
    split <;> simp_all
  | cons a text ih =>
    rw [List.infix_cons_iff, not_or]
    by_cases starts : sep <+: a :: text
    · rw [after_start starts]
      exact ⟨(nomatch ·), fun absent => absurd starts absent.1⟩
    · rw [after_cons starts, ih]
      exact ⟨fun absent => ⟨starts, absent⟩, And.right⟩

/-- What stands after an occurrence is shorter by the separator at least. -/
theorem after_length (found : after sep text = some rest) : rest.length + sep.length ≤ text.length := by
  induction text with
  | nil =>
    rw [after] at found
    split at found
    · rename_i empty
      cases found
      rw [empty]
      exact le_rfl
    · cases found
  | cons a text ih =>
    by_cases starts : sep <+: a :: text
    · rw [after_start starts] at found
      cases found
      have most := starts.length_le
      rw [List.length_drop]
      omega
    · rw [after_cons starts] at found
      have most := ih found
      rw [List.length_cons]
      omega

/-- A separator does not begin in a text that lacks its first element. -/
theorem after_skip (absent : first ∉ front) :
    after (first :: sep) (front ++ text) = after (first :: sep) text := by
  induction front with
  | nil => rfl
  | cons a front ih =>
    rw [List.mem_cons, not_or] at absent
    rw [List.cons_append, after_cons (fun starts => absent.1 (List.cons_prefix_cons.mp starts).1),
      ih absent.2]

end General

/-! ## Quoted words -/

section Quoted
open ShellWord
variable {sep text rest : List Char} {first : Char}

/-- A separator without quotes that begins an escaped text begins the text. -/
theorem prefix_escape (unquoted : singleQuote ∉ sep) :
    sep <+: escape text ++ singleQuote :: rest ↔ sep <+: text := by
  constructor
  · rintro ⟨tail, whole⟩
    obtain ⟨more, isEscape, _⟩ | ⟨more, isSep, isRest⟩ := List.append_eq_append_iff.mp whole
    · obtain ⟨after, rfl, _⟩ := escape_front unquoted isEscape
      exact List.prefix_append sep after
    · cases more with
      | nil =>
        rw [List.append_nil] at isSep
        obtain ⟨after, rfl, _⟩ := @escape_front text sep [] unquoted (by rw [isSep, List.append_nil])
        exact List.prefix_append sep after
      | cons c more =>
        obtain ⟨rfl, _⟩ := List.cons.inj isRest
        exact absurd (isSep ▸ List.mem_append_right _ List.mem_cons_self) unquoted
  · rintro ⟨after, rfl⟩
    rw [escape_append, escape_unquoted unquoted, List.append_assoc]
    exact List.prefix_append _ _

theorem after_escape (unquoted : singleQuote ∉ first :: sep) (double : first ≠ doubleQuote)
    (clean : ¬ first :: sep <:+: text) :
    after (first :: sep) (escape text ++ singleQuote :: rest) = after (first :: sep) rest := by
  have single : first ≠ singleQuote := fun same => unquoted (same ▸ List.mem_cons_self)
  induction text with
  | nil => exact after_cons (fun starts => single (List.cons_prefix_cons.mp starts).1)
  | cons c text ih =>
    rw [List.infix_cons_iff, not_or] at clean
    by_cases isQuote : c = singleQuote
    · have absent : first ∉ escaped c := by simp [escaped, isQuote, single, double]
      rw [escape_cons, List.append_assoc, after_skip absent, ih clean.2]
    · have starts : ¬ first :: sep <+: escape (c :: text) ++ singleQuote :: rest :=
        fun starts => clean.1 ((prefix_escape unquoted).mp starts)
      rw [escape_cons, escaped_other isQuote] at starts ⊢
      rw [List.append_assoc, List.singleton_append] at starts ⊢
      rw [after_cons starts, ih clean.2]

theorem after_escape_found (unquoted : singleQuote ∉ first :: sep) (double : first ≠ doubleQuote)
    (found : first :: sep <:+: text) :
    ∃ more, after (first :: sep) (escape text ++ singleQuote :: rest) = some more ∧
      rest.length < more.length := by
  have single : first ≠ singleQuote := fun same => unquoted (same ▸ List.mem_cons_self)
  induction text with
  | nil => cases List.infix_nil.mp found
  | cons c text ih =>
    by_cases starts : first :: sep <+: c :: text
    · obtain ⟨beyond, whole⟩ := starts
      refine ⟨escape beyond ++ singleQuote :: rest, ?_, ?_⟩
      · rw [← whole, escape_append, escape_unquoted unquoted, List.append_assoc, after_here]
      · rw [List.length_append, List.length_cons]
        omega
    · have later : first :: sep <:+: text := (List.infix_cons_iff.mp found).resolve_left starts
      by_cases isQuote : c = singleQuote
      · have absent : first ∉ escaped c := by simp [escaped, isQuote, single, double]
        rw [escape_cons, List.append_assoc, after_skip absent]
        exact ih later
      · have starts : ¬ first :: sep <+: escape (c :: text) ++ singleQuote :: rest :=
          fun begins => starts ((prefix_escape unquoted).mp begins)
        rw [escape_cons, escaped_other isQuote] at starts ⊢
        rw [List.append_assoc, List.singleton_append] at starts ⊢
        rw [after_cons starts]
        exact ih later

theorem quote_append (text rest : List Char) :
    text.all safe = true ∧ quote text ++ rest = text ++ rest ∨
    quote text ++ rest = singleQuote :: (escape text ++ singleQuote :: rest) := by
  unfold quote
  split
  · rename_i plain
    exact .inl ⟨plain.2, rfl⟩
  · exact .inr (by simp)

/-- A separator that does not begin with a safe character or a quote is not found in the word of a
text without it. -/
theorem after_quote (unquoted : singleQuote ∉ first :: sep) (double : first ≠ doubleQuote)
    (special : safe first = false)
    (clean : ¬ first :: sep <:+: text) :
    after (first :: sep) (quote text ++ rest) = after (first :: sep) rest := by
  obtain ⟨plain, same⟩ | same := quote_append text rest
  · have absent : first ∉ text := fun member =>
      absurd (List.all_eq_true.mp plain first member) (by simp [special])
    rw [same, after_skip absent]
  · have single : first ≠ singleQuote := fun same => unquoted (same ▸ List.mem_cons_self)
    rw [same, after_cons (fun starts => single (List.cons_prefix_cons.mp starts).1),
      after_escape unquoted double clean]

/-- Where the text has the separator, it is found before the end of the word. -/
theorem after_quote_found (unquoted : singleQuote ∉ first :: sep) (double : first ≠ doubleQuote)
    (special : safe first = false)
    (found : first :: sep <:+: text) :
    ∃ more, after (first :: sep) (quote text ++ rest) = some more ∧ rest.length < more.length := by
  obtain ⟨plain, _⟩ | same := quote_append text rest
  · have member : first ∈ text := found.subset List.mem_cons_self
    exact absurd (List.all_eq_true.mp plain first member) (by simp [special])
  · have single : first ≠ singleQuote := fun same => unquoted (same ▸ List.mem_cons_self)
    rw [same, after_cons (fun starts => single (List.cons_prefix_cons.mp starts).1)]
    exact after_escape_found unquoted double found

end Quoted

end Splitting
