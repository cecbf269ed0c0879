import Mathlib.Data.List.Basic
import Mathlib.Order.Basic
import Mathlib.Tactic.Common

/-! Leftmost scanning for tokens that cannot overlap, in a text that arrives in pieces. The scanner
keeps a tail of the text in which a token may still begin, and leaves a token alone that the next
piece may lengthen. -/
namespace Scanning

structure Match (τ : Type*) where
  start : Nat
  stop : Nat
  token : τ

section Scanner
variable {α τ : Type*} (token : List α → Option (τ × Nat)) (grows : τ → Bool)

/-- The tokens from left to right. After a token `skip` characters belong to it. -/
def finditer (start : Nat) : Nat → List α → List (Match τ)
  | _, [] => []
  | skip + 1, _ :: rest => finditer (start + 1) skip rest
  | 0, c :: rest =>
    match token (c :: rest) with
    | some (e, n) => ⟨start, start + n, e⟩ :: finditer (start + 1) (n - 1) rest
    | none => finditer (start + 1) 0 rest

/-- The tokens that begin anywhere. -/
def hits : List α → List τ
  | [] => []
  | c :: rest => ((token (c :: rest)).map Prod.fst).toList ++ hits rest

/-- The tokens that are done with, and where the tail begins. -/
def settle (final : Bool) (length : Nat) : List (Match τ) → Nat → List τ × Nat
  | [], boundary => ([], boundary)
  | found :: rest, boundary =>
    if final = false ∧ grows found.token = true ∧ found.stop = length then
      ([], min boundary found.start)
    else
      let (tokens, last) := settle final length rest (max boundary found.stop)
      (found.token :: tokens, last)

end Scanner

/-- Tokens that cannot overlap. A valid text is one in which an unfinished token is short. -/
structure Grammar (α τ : Type*) where
  token : List α → Option (τ × Nat)
  grows : τ → Bool
  valid : List α → Prop
  bound : Nat
  within : ∀ {s e n}, token s = some (e, n) → 0 < n ∧ n ≤ s.length
  kept : ∀ {s e n} y, token s = some (e, n) → n < s.length ∨ grows e = false →
    token (s ++ y) = some (e, n)
  found : ∀ {s y e n}, token (s ++ y) = some (e, n) → n ≤ s.length → token s = some (e, n)
  begun : ∀ {s y e n}, valid s → token (s ++ y) = some (e, n) → s.length < n →
    s.length < bound ∨ ∃ e', token s = some (e', s.length)
  apart : ∀ {s e n i}, token s = some (e, n) → 0 < i → i < n → token (s.drop i) = none
  suffix : ∀ {c s}, valid (c :: s) → valid s

variable {α τ : Type*} {token : List α → Option (τ × Nat)} {g : Grammar α τ}
variable {s y : List α} {c : α} {e : τ} {n skip start boundary length k : Nat}

theorem hits_some (same : token (c :: s) = some (e, n)) : hits token (c :: s) = e :: hits token s := by
  rw [hits, same]
  rfl

theorem hits_none (same : token (c :: s) = none) : hits token (c :: s) = hits token s := by
  rw [hits, same]
  rfl

/-- The characters of a token begin no other. -/
theorem skipped (same : g.token (c :: s) = some (e, n)) : ∀ i < n - 1, g.token (s.drop i) = none := by
  intro i below
  exact @g.apart (c :: s) e n (i + 1) same (Nat.succ_pos i) (by omega)

/-- Scanning from left to right misses no token. -/
theorem finditer_hits (start : Nat) (quiet : ∀ i < skip, g.token (s.drop i) = none) :
    (finditer g.token start skip s).map Match.token = hits g.token s := by
  induction s generalizing start skip with
  | nil => cases skip <;> rfl
  | cons c rest ih =>
    cases skip with
    | succ skip =>
      rw [finditer, hits_none (quiet 0 (Nat.succ_pos skip))]
      exact ih _ (fun i below => quiet (i + 1) (Nat.succ_lt_succ below))
    | zero =>
      rw [finditer]
      cases same : g.token (c :: rest) with
      | none =>
        rw [hits_none same]
        exact ih _ (fun i below => absurd below (Nat.not_lt_zero i))
      | some found =>
        obtain ⟨e, n⟩ := found
        rw [hits_some same, List.map_cons, ih _ (skipped same)]

/-- The tokens do not depend on where the text starts, and skipped characters may be dropped. -/
theorem finditer_drop (token : List α → Option (τ × Nat)) (start skip : Nat) (s : List α) :
    (finditer token start skip s).map Match.token =
    (finditer token 0 0 (s.drop skip)).map Match.token := by
  induction s generalizing start skip with
  | nil => cases skip <;> rfl
  | cons c rest ih =>
    cases skip with
    | succ skip => exact ih (start + 1) skip
    | zero =>
      rw [List.drop_zero, finditer, finditer]
      cases token (c :: rest) with
      | none => exact (ih (start + 1) 0).trans (ih 1 0).symm
      | some found =>
        have later := (ih (start + 1) (found.2 - 1)).trans (ih 1 (found.2 - 1)).symm
        exact congrArg (found.1 :: ·) later

theorem hits_nil (quiet : ∀ i < s.length, token (s.drop i) = none) : hits token s = [] := by
  induction s with
  | nil => rfl
  | cons c rest ih =>
    rw [hits_none (quiet 0 (Nat.succ_pos _))]
    exact ih (fun i below => quiet (i + 1) (Nat.succ_lt_succ below))

/-- What the scanner may forget of a text at position `start`: the tokens it is done with are the
first tokens of the text, whatever comes, and in the tail only a token that may grow is left. -/
structure Stable (g : Grammar α τ) (k start boundary : Nat) (s : List α) (tokens : List τ)
    (last : Nat) : Prop where
  hits : ∀ y, hits g.token (s ++ y) = tokens ++ hits g.token (s.drop (last - start) ++ y)
  late : ∀ e ∈ Scanning.hits g.token (s.drop (last - start)), g.grows e = true
  origin : tokens = [] ∧ last ≤ boundary ∨
    ∃ i, start + i < last ∧ i < s.length ∧ ∃ found, ∀ y, g.token (s.drop i ++ y) = some found
  short : start + s.length - last ≤ k ∨
    start ≤ last ∧ ∃ e, g.token (s.drop (last - start)) = some (e, start + s.length - last)
  inside : last ≤ start + s.length

variable {tokens : List τ} {last : Nat}

theorem drop_past (past : start < last) :
    (c :: s).drop (last - start) = s.drop (last - (start + 1)) := by
  have next : last - start = (last - (start + 1)) + 1 := by omega
  rw [next, List.drop_succ_cons]

/-- A character at which nothing begins. -/
theorem Stable.cons (rest : Stable g k (start + 1) boundary s tokens last)
    (now : g.token (c :: s) = none)
    (quiet : start < last → ∀ y, g.token (c :: (s ++ y)) = none) :
    Stable g k start boundary (c :: s) tokens last := by
  have length : start + 1 + s.length = start + (c :: s).length := by
    rw [List.length_cons]
    omega
  by_cases past : start < last
  · have same := @drop_past _ s c _ _ past
    constructor
    · intro y
      rw [List.cons_append, hits_none (quiet past y), rest.hits, same]
    · rw [same]
      exact rest.late
    · refine rest.origin.imp id ?_
      rintro ⟨i, before, inside, found⟩
      exact ⟨i + 1, by omega, Nat.succ_lt_succ inside, found⟩
    · rw [same, ← length]
      exact rest.short.imp id (fun long => ⟨Nat.le_of_lt past, long.2⟩)
    · exact Nat.le_trans rest.inside (Nat.le_of_eq length)
  · have none_yet : tokens = [] ∧ last ≤ boundary := rest.origin.resolve_right (by
      rintro ⟨i, before, _⟩
      omega)
    have still : last - start = 0 := by omega
    have later : last - (start + 1) = 0 := by omega
    constructor
    · intro y
      rw [none_yet.1, still]
      rfl
    · rw [still, List.drop_zero, hits_none now]
      have late := rest.late
      rwa [later, List.drop_zero] at late
    · exact .inl none_yet
    · refine rest.short.imp (fun short => length ▸ short) ?_
      rintro ⟨past', _⟩
      omega
    · exact Nat.le_trans rest.inside (Nat.le_of_eq length)

/-- A token that nothing can change any more. -/
theorem Stable.step {boundary' : Nat} (rest : Stable g k (start + 1) boundary' s tokens last)
    (past : start < last)
    (kept : ∀ y, g.token (c :: (s ++ y)) = some (e, n)) :
    Stable g k start boundary (c :: s) (e :: tokens) last := by
  have length : start + 1 + s.length = start + (c :: s).length := by
    rw [List.length_cons]
    omega
  have same := @drop_past _ s c _ _ past
  constructor
  · intro y
    rw [List.cons_append, hits_some (kept y), rest.hits, same]
    rfl
  · rw [same]
    exact rest.late
  · exact .inr ⟨0, past, Nat.succ_pos _, (e, n), kept⟩
  · rw [same, ← length]
    exact rest.short.imp id (fun long => ⟨Nat.le_of_lt past, long.2⟩)
  · exact Nat.le_trans rest.inside (Nat.le_of_eq length)

/-- A token at the end of the text that may grow. -/
theorem Stable.held (same : g.token (c :: s) = some (e, (c :: s).length)) (grows : g.grows e = true)
    (low : start + (c :: s).length - k ≤ boundary) :
    Stable g k start boundary (c :: s) [] (min boundary start) := by
  have still : min boundary start - start = 0 := by omega
  constructor
  · intro y
    rw [still]
    rfl
  · rw [still, List.drop_zero, hits_some same, hits_nil (skipped same)]
    intro e' member
    rwa [List.mem_singleton.mp member]
  · exact .inl ⟨rfl, Nat.min_le_left _ _⟩
  · by_cases before : boundary ≤ start
    · refine .inl ?_
      omega
    · have at_start : min boundary start = start := by omega
      refine .inr ⟨Nat.le_of_eq at_start.symm, e, ?_⟩
      rw [still, List.drop_zero, same, at_start]
      congr 2
      omega
  · omega

/-- The scanner from any position on, behind a token that covers the first `skip` characters. -/
theorem settled (enough : g.bound ≤ k) (valid : g.valid s) (isLength : start + s.length = length)
    (covers : skip ≤ s.length)
    (quiet : ∀ y, ∀ i < skip, g.token ((s ++ y).drop i) = none) (low : length - k ≤ boundary)
    (high : boundary ≤ max (length - k) (start + skip)) :
    Stable g k start boundary s (settle g.grows false length (finditer g.token start skip s) boundary).1
      (settle g.grows false length (finditer g.token start skip s) boundary).2 ∧
    min boundary (start + skip) ≤
    (settle g.grows false length (finditer g.token start skip s) boundary).2 := by
  induction s generalizing start skip boundary with
  | nil =>
    obtain rfl := Nat.le_zero.mp covers
    rw [List.length_nil, Nat.add_zero] at isLength
    simp only [finditer, settle]
    refine ⟨⟨fun y => ?_, fun e member => ?_, .inl ⟨rfl, Nat.le_refl _⟩, .inl ?_, ?_⟩,
      Nat.min_le_left _ _⟩
    · rw [List.drop_nil]
      rfl
    · rw [List.drop_nil] at member
      cases member
    · rw [List.length_nil]
      omega
    · rw [List.length_nil]
      omega
  | cons c rest ih =>
    rw [List.length_cons] at isLength covers
    have validRest := g.suffix valid
    cases skip with
    | succ skip =>
      rw [finditer]
      obtain ⟨settled, past⟩ := @ih skip (start + 1) boundary validRest (by omega) (by omega)
        (fun y i below => quiet y (i + 1) (Nat.succ_lt_succ below)) low (by omega)
      have now := quiet [] 0 (Nat.succ_pos skip)
      rw [List.append_nil] at now
      refine ⟨settled.cons now (fun _ y => quiet y 0 (Nat.succ_pos skip)), ?_⟩
      omega
    | zero =>
      rw [finditer]
      cases same : g.token (c :: rest) with
      | none =>
        dsimp only
        obtain ⟨settled, past⟩ := @ih 0 (start + 1) boundary validRest (by omega) (Nat.zero_le _)
          (fun y i below => absurd below (Nat.not_lt_zero i)) low (by omega)
        generalize settle g.grows false length (finditer g.token (start + 1) 0 rest) boundary =
          result at settled past
        refine ⟨settled.cons same (fun before y => ?_), ?_⟩
        · cases begins : g.token (c :: (rest ++ y)) with
          | none => rfl
          | some found =>
            -- a token that the next piece completes is too long for what is left, or covers one
            -- that is settled
            obtain ⟨e, n⟩ := found
            by_cases fits : n ≤ (c :: rest).length
            · rw [@g.found (c :: rest) y _ _ begins fits] at same
              cases same
            · obtain tiny | ⟨e', begun⟩ := g.begun valid begins (Nat.not_le.mp fits)
              · rw [List.length_cons] at tiny fits
                obtain ⟨_, at_most⟩ | ⟨i, _, inside, found, fixed⟩ := settled.origin
                · omega
                · have covered := g.apart begins (Nat.succ_pos i) (by omega)
                  rw [List.drop_succ_cons, List.drop_append_of_le_length (Nat.le_of_lt inside),
                    fixed] at covered
                  cases covered
              · rw [begun] at same
                cases same
        · omega
      | some found =>
        obtain ⟨e, n⟩ := found
        obtain ⟨positive, within⟩ := g.within same
        rw [List.length_cons] at within
        dsimp only
        rw [settle]
        by_cases held : false = false ∧ g.grows e = true ∧ start + n = length
        · rw [if_pos held]
          have whole : n = (c :: rest).length := by
            rw [List.length_cons]
            omega
          subst whole
          refine ⟨.held same held.2.1 ?_, Nat.le_refl _⟩
          rw [List.length_cons]
          omega
        · rw [if_neg held]
          have kept : ∀ y, g.token (c :: (rest ++ y)) = some (e, n) := fun y => by
            refine g.kept y same ?_
            by_cases grows : g.grows e = true
            · refine .inl ?_
              rw [List.length_cons]
              have open_end : start + n ≠ length := fun full => held ⟨rfl, grows, full⟩
              omega
            · exact .inr (Bool.eq_false_iff.mpr grows)
          obtain ⟨settled, past⟩ :=
            @ih (n - 1) (start + 1) (max boundary (start + n)) validRest (by omega) (by omega)
            (fun y i below => skipped (kept y) i below) (by omega) (by omega)
          generalize settle g.grows false length (finditer g.token (start + 1) (n - 1) rest)
            (max boundary (start + n)) = result at settled past ⊢
          refine ⟨settled.step (by omega) kept, ?_⟩
          dsimp only
          omega

/-- A text that has arrived, up to a token that may grow. -/
theorem settled_all (enough : g.bound ≤ k) (valid : g.valid s) :
    let result := settle g.grows false s.length (finditer g.token 0 0 s) (s.length - k)
    (∀ y, hits g.token (s ++ y) = result.1 ++ hits g.token (s.drop result.2 ++ y)) ∧
    (∀ e ∈ hits g.token (s.drop result.2), g.grows e = true) ∧
    ((s.drop result.2).length ≤ k ∨
      ∃ e, g.token (s.drop result.2) = some (e, (s.drop result.2).length)) := by
  obtain ⟨settled, _⟩ :=
    @settled _ _ g s 0 0 (s.length - k) s.length k enough valid (Nat.zero_add _) (Nat.zero_le _)
    (fun y i below => absurd below (Nat.not_lt_zero i)) (Nat.le_refl _) (Nat.le_max_left _ _)
  dsimp only
  generalize settle g.grows false s.length (finditer g.token 0 0 s) (s.length - k) = result at settled ⊢
  refine ⟨settled.hits, settled.late, settled.short.imp (fun short => ?_) (fun long => ?_)⟩
  · rw [List.length_drop]
    omega
  · rw [List.length_drop]
    have whole := long.2
    rwa [Nat.zero_add] at whole

/-- In the end every token is done with. -/
theorem settle_final (grows : τ → Bool) (length boundary : Nat) (matches' : List (Match τ)) :
    (settle grows true length matches' boundary).1 = matches'.map Match.token := by
  induction matches' generalizing boundary with
  | nil => rfl
  | cons found rest ih =>
    rw [settle, if_neg (fun held => nomatch held.1)]
    exact congrArg (found.token :: ·) (ih _)

theorem settle_last (grows : τ → Bool) (length boundary : Nat) (matches' : List (Match τ)) :
    boundary ≤ (settle grows true length matches' boundary).2 := by
  induction matches' generalizing boundary with
  | nil => exact Nat.le_refl _
  | cons found rest ih =>
    rw [settle, if_neg (fun held => nomatch held.1)]
    exact Nat.le_trans (Nat.le_max_left _ _) (ih _)

end Scanning
