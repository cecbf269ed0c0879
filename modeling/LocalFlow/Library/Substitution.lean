import LocalFlow.Library.Scan

/-! A text as its tokens and the characters between them, and the texts that a substitution makes of
it. -/
namespace Scanning

/-- A part of a text: a character that belongs to no token, or a token with its characters. -/
inductive Piece (α τ : Type*) where
  | plain (c : α)
  | token (e : τ) (span : List α)

variable {α τ : Type*}

def Piece.text : Piece α τ → List α
  | .plain c => [c]
  | .token _ span => span

def spell (parts : List (Piece α τ)) : List α := parts.flatMap Piece.text

/-- The tokens of some parts. -/
def tokens (parts : List (Piece α τ)) : List τ :=
  parts.flatMap fun
    | .plain _ => []
    | .token e _ => [e]

def Piece.replaced {ε : Type*} (replace : τ → Except ε (List α)) : Piece α τ → Except ε (List α)
  | .plain c => .ok [c]
  | .token e _ => replace e

def Piece.rewritten (rewrite : τ → List α) : Piece α τ → List α
  | .plain c => [c]
  | .token e _ => rewrite e

section Pieces
variable (token : List α → Option (τ × Nat))

/-- The parts of a text from left to right, behind `skip` characters. -/
def pieces : Nat → List α → List (Piece α τ)
  | _, [] => []
  | skip + 1, _ :: rest => pieces skip rest
  | 0, c :: rest =>
    match token (c :: rest) with
    | some (e, n) => .token e ((c :: rest).take n) :: pieces (n - 1) rest
    | none => .plain c :: pieces 0 rest

/-- `Pattern.sub` with a function that may raise. -/
def substituted {ε : Type*} (replace : τ → Except ε (List α)) (text : List α) : Except ε (List α) :=
  ((pieces token 0 text).mapM (Piece.replaced replace)).map List.flatten

/-- The parts are those that scanning from left to right finds. -/
inductive Segmented : List (Piece α τ) → Prop where
  | nil : Segmented []
  | plain (c : α) (parts : List (Piece α τ)) (quiet : token (c :: spell parts) = none)
      (rest : Segmented parts) :
      Segmented (.plain c :: parts)
  | token (e : τ) (c : α) (span : List α) (parts : List (Piece α τ))
      (found : token (c :: span ++ spell parts) = some (e, (c :: span).length))
        (rest : Segmented parts) :
      Segmented (.token e (c :: span) :: parts)

end Pieces

variable {token : List α → Option (τ × Nat)} {s : List α} {parts : List (Piece α τ)}

theorem spell_cons (part : Piece α τ) (parts : List (Piece α τ)) :
    spell (part :: parts) = part.text ++ spell parts := by
  rw [spell, List.flatMap_cons, spell]

theorem spell_append (first second : List (Piece α τ)) :
    spell (first ++ second) = spell first ++ spell second :=
  List.flatMap_append

theorem tokens_append (first second : List (Piece α τ)) :
    tokens (first ++ second) = tokens first ++ tokens second :=
  List.flatMap_append

/-- Characters that are no tokens spell themselves. -/
theorem spell_plain (s : List α) : spell (s.map (Piece.plain (τ := τ))) = s := by
  induction s with
  | nil => rfl
  | cons c rest ih => exact congrArg (c :: ·) ih

theorem tokens_plain (s : List α) : tokens (s.map (Piece.plain (τ := τ))) = [] := by
  induction s with
  | nil => rfl
  | cons c rest ih => exact ih

theorem pieces_drop (skip : Nat) (s : List α) : pieces token skip s = pieces token 0 (s.drop skip) := by
  induction s generalizing skip with
  | nil => cases skip <;> rfl
  | cons c rest ih =>
    cases skip with
    | zero => rfl
    | succ skip => exact ih skip

theorem pieces_skip (s y : List α) : pieces token s.length (s ++ y) = pieces token 0 y := by
  rw [pieces_drop, List.drop_left]

/-- A text has one segmentation. -/
theorem Segmented.unique (segmented : Segmented token parts) :
    pieces token 0 (spell parts) = parts := by
  induction segmented with
  | nil => rfl
  | plain c parts quiet _ ih =>
    rw [spell_cons]
    change pieces token 0 (c :: spell parts) = _
    rw [pieces, quiet, ih]
  | token e c span parts found _ ih =>
    rw [spell_cons]
    change pieces token 0 (c :: (span ++ spell parts)) = _
    rw [pieces, ← List.cons_append, found]
    have whole : (c :: span ++ spell parts).take (c :: span).length = c :: span := List.take_left
    have later : pieces token ((c :: span).length - 1) (span ++ spell parts) = parts := by
      rw [List.length_cons, Nat.add_sub_cancel, pieces_skip, ih]
    dsimp only
    rw [whole, later]

theorem pieces_segmented (within : ∀ {s e n}, token s = some (e, n) → 0 < n ∧ n ≤ s.length)
    (s : List α) :
    Segmented token (pieces token 0 s) ∧ spell (pieces token 0 s) = s := by
  suffices all : ∀ length (s : List α), s.length ≤ length →
      Segmented token (pieces token 0 s) ∧
        spell (pieces token 0 s) = s from all s.length s (Nat.le_refl _)
  intro length
  induction length with
  | zero =>
    intro s short
    cases List.eq_nil_of_length_eq_zero (Nat.le_zero.mp short)
    exact ⟨.nil, rfl⟩
  | succ length ih =>
    intro s short
    cases s with
    | nil => exact ⟨.nil, rfl⟩
    | cons c rest =>
      have short : rest.length ≤ length := Nat.le_of_succ_le_succ short
      rw [pieces]
      cases found : token (c :: rest) with
      | none =>
        obtain ⟨segmented, spelled⟩ := ih rest short
        refine ⟨.plain c _ ?_ segmented, ?_⟩
        · rw [spelled, found]
        · rw [spell_cons, spelled]
          rfl
      | some result =>
        obtain ⟨e, n⟩ := result
        obtain ⟨positive, inside⟩ := within found
        obtain ⟨n, rfl⟩ := Nat.exists_eq_succ_of_ne_zero (Nat.ne_of_gt positive)
        rw [List.length_cons] at inside
        dsimp only
        rw [Nat.succ_sub_one, pieces_drop, List.take_succ_cons]
        obtain ⟨segmented, spelled⟩ := ih (rest.drop n) (by rw [List.length_drop]; omega)
        have split : c :: rest.take n ++ rest.drop n = c :: rest :=
          congrArg (c :: ·) (List.take_append_drop n rest)
        refine ⟨.token e c _ _ ?_ segmented, ?_⟩
        · rw [spelled, split, found, List.length_cons, List.length_take]
          congr 2
          omega
        · rw [spell_cons, spelled]
          exact split

section Substitution
variable {ε : Type*} {replace : τ → Except ε (List α)}

/-- A substitution where no replacement raises. -/
theorem substituted_ok {rewrite : τ → List α}
    (fine : ∀ e ∈ tokens (pieces token 0 s), replace e = .ok (rewrite e)) :
    substituted token replace s = .ok ((pieces token 0 s).flatMap (Piece.rewritten rewrite)) := by
  rw [substituted]
  generalize pieces token 0 s = parts at fine
  suffices each : parts.mapM (Piece.replaced replace) = .ok (parts.map (Piece.rewritten rewrite)) by
    rw [each, List.flatMap_def]
    rfl
  induction parts with
  | nil => rfl
  | cons part rest ih =>
    have now : part.replaced replace = .ok (part.rewritten rewrite) := by
      cases part with
      | plain c => rfl
      | token e span => exact fine e (List.mem_append_left _ List.mem_cons_self)
    rw [List.mapM_cons, now, ih (fun e member => fine e (List.mem_append_right _ member))]
    rfl

/-- A substitution that returns has replaced every token. -/
theorem substituted_replaced {new : List α} (done : substituted token replace s = .ok new) :
    ∀ e ∈ tokens (pieces token 0 s), ∃ part, replace e = .ok part := by
  rw [substituted] at done
  generalize pieces token 0 s = parts at done
  have each : ∃ texts, parts.mapM (Piece.replaced replace) = .ok texts := by
    cases mapped : parts.mapM (Piece.replaced replace) with
    | error e =>
      rw [mapped] at done
      cases done
    | ok texts => exact ⟨texts, rfl⟩
  clear done
  intro e member
  induction parts with
  | nil => cases member
  | cons part rest ih =>
    obtain ⟨texts, mapped⟩ := each
    rw [List.mapM_cons] at mapped
    cases now : part.replaced replace with
    | error e =>
      rw [now] at mapped
      cases mapped
    | ok text =>
      cases later : rest.mapM (Piece.replaced replace) with
      | error e =>
        rw [now, later] at mapped
        cases mapped
      | ok texts =>
        rcases List.mem_append.mp member with here | member
        · cases part with
          | plain c => cases here
          | token first span =>
            cases List.mem_singleton.mp here
            exact ⟨text, now⟩
        · exact ih ⟨texts, later⟩ member

end Substitution

end Scanning
