import LocalFlow.Moving

/-! The text of a configuration as its include directives and what stands around their targets, and
what becomes of both when every target is written anew. -/
namespace LocalFlow
open Scanning

/-! ## Words -/

/-- What ends a word: a blank, or the end of the text. -/
def SpaceEnd (rest : List Char) : Prop := ∀ c ∈ rest.head?, isSpace c = true

/-- A word that stays one word in a directive. -/
def SolidWord (word : List Char) : Prop := word ≠ [] ∧ ∀ c ∈ word, isSpace c = false ∧ c ≠ '#'

/-- The layout of a text: its blanks, and a hole for each of its words. -/
def blot : Bool → List Char → List (Option Char)
  | _, [] => []
  | inside, c :: rest =>
    if isSpace c = true then some c :: blot false rest
    else if inside = true then blot true rest
    else none :: blot true rest

/-- A layout with words in its holes. -/
def fillIn : List (Option Char) → List String → List Char
  | [], _ => []
  | some c :: layout, group => c :: fillIn layout group
  | none :: layout, word :: group => word.toList ++ fillIn layout group
  | none :: layout, [] => fillIn layout []

/-- The layout of words with a blank between each two. -/
def spaced : Nat → List (Option Char)
  | 0 => []
  | 1 => [none]
  | count + 2 => none :: some ' ' :: spaced (count + 1)

def joined (group : List String) : List Char := [' '].intercalate (group.map String.toList)

section Words
variable {c : Char} {word rest text : List Char} {group : List String}

/-- A text is read blank by blank and word by word. -/
theorem word_induction {P : List Char → Prop} (nil : P [])
    (space : ∀ c rest, isSpace c = true → P rest → P (c :: rest))
    (word : ∀ word rest, word ≠ [] → (∀ c ∈ word, isSpace c = false) → SpaceEnd rest → P rest →
      P (word ++ rest))
    (text : List Char) : P text := by
  suffices all : ∀ length (text : List Char), text.length ≤ length →
    P text from all text.length text (Nat.le_refl _)
  intro length
  induction length with
  | zero =>
    intro text short
    cases List.eq_nil_of_length_eq_zero (Nat.le_zero.mp short)
    exact nil
  | succ length ih =>
    intro text short
    cases text with
    | nil => exact nil
    | cons c rest =>
      by_cases blank : isSpace c = true
      · exact space c rest blank (ih rest (Nat.le_of_succ_le_succ short))
      · have first : (fun c => !isSpace c) c = true :=
          (Bool.not_eq_true' _).mpr (Bool.eq_false_iff.mpr blank)
        have whole :
            (c :: rest).takeWhile (fun c => !isSpace c) ++
              (c :: rest).dropWhile (fun c => !isSpace c) = c :: rest :=
          List.takeWhile_append_dropWhile
        have below : ((c :: rest).dropWhile (fun c => !isSpace c)).length ≤ length := by
          rw [List.dropWhile_cons_of_pos (p := fun c => !isSpace c) first]
          exact Nat.le_trans (List.dropWhile_suffix _).length_le (Nat.le_of_succ_le_succ short)
        rw [← whole]
        refine word _ _ ?_ ?_ ?_ (ih _ below)
        · rw [List.takeWhile_cons_of_pos (p := fun c => !isSpace c) first]
          exact List.cons_ne_nil _ _
        · intro d member
          have solid := List.all_eq_true.mp List.all_takeWhile d member
          rwa [Bool.not_eq_true'] at solid
        · intro d isHead
          have ends := List.head?_dropWhile_not (fun c => !isSpace c) (c :: rest)
          rw [isHead] at ends
          simpa using ends

theorem words_space (blank : isSpace c = true) : words (c :: rest) = words rest := by
  unfold words
  rw [List.splitOnP_cons_eq_if_modifyHead, if_pos blank, List.filter_cons_of_neg (by simp)]

theorem words_word (some_word : word ≠ []) (solid : ∀ c ∈ word, isSpace c = false)
    (ends : SpaceEnd rest) :
    words (word ++ rest) = String.ofList word :: words rest := by
  cases rest with
  | nil =>
    unfold words
    rw [List.append_nil, List.splitOnP_eq_singleton solid]
    simp [some_word]
  | cons c rest =>
    have blank : isSpace c = true := ends c rfl
    rw [words_space blank]
    unfold words
    rw [List.splitOnP_append_cons_of_forall_mem solid c blank]
    simp [some_word]

theorem blot_inside (solid : ∀ c ∈ word, isSpace c = false) :
    blot true (word ++ rest) = blot true rest := by
  induction word with
  | nil => rfl
  | cons c word ih =>
    rw [List.cons_append, blot, if_neg (Bool.eq_false_iff.mp (solid c List.mem_cons_self)), if_pos rfl]
    exact ih (fun d member => solid d (List.mem_cons_of_mem _ member))

theorem blot_end (ends : SpaceEnd rest) : blot true rest = blot false rest := by
  cases rest with
  | nil => rfl
  | cons c rest =>
    have blank : isSpace c = true := ends c rfl
    rw [blot, blot, if_pos blank, if_pos blank]

theorem blot_word (some_word : word ≠ []) (solid : ∀ c ∈ word, isSpace c = false)
    (ends : SpaceEnd rest) :
    blot false (word ++ rest) = none :: blot false rest := by
  cases word with
  | nil => exact absurd rfl some_word
  | cons c word =>
    rw [List.cons_append, blot, if_neg (Bool.eq_false_iff.mp (solid c List.mem_cons_self)),
      if_neg Bool.noConfusion,
      blot_inside (fun d member => solid d (List.mem_cons_of_mem _ member)), blot_end ends]

/-- The layout and the words make the text. -/
theorem fillIn_blot (text : List Char) : fillIn (blot false text) (words text) = text := by
  induction text using word_induction with
  | nil => rfl
  | space c rest blank ih =>
    rw [blot, if_pos blank, words_space blank, fillIn, ih]
  | word word rest some_word solid ends ih =>
    rw [blot_word some_word solid ends, words_word some_word solid ends, fillIn, ih,
      String.toList_ofList]

/-- Two words have a blank between them. -/
theorem blot_length (text : List Char) :
    2 * (words text).length ≤ (blot false text).length + 1 ∧
      (SpaceEnd text → 2 * (words text).length ≤ (blot false text).length) := by
  induction text using word_induction with
  | nil => exact ⟨Nat.zero_le _, fun _ => Nat.zero_le _⟩
  | space c rest blank ih =>
    obtain ⟨all, _⟩ := ih
    rw [blot, if_pos blank, words_space blank, List.length_cons]
    exact ⟨by omega, fun _ => all⟩
  | word word rest some_word solid ends ih =>
    have later := ih.2 ends
    rw [blot_word some_word solid ends, words_word some_word solid ends, List.length_cons,
      List.length_cons]
    refine ⟨by omega, fun begins => ?_⟩
    cases word with
    | nil => exact absurd rfl some_word
    | cons c word =>
      have blank := begins c rfl
      rw [solid c List.mem_cons_self] at blank
      cases blank

theorem joined_cons (first second : String) (group : List String) :
    joined (first :: second :: group) = first.toList ++ ' ' :: joined (second :: group) := by
  unfold joined
  rw [List.map_cons, List.intercalate_cons_of_ne_nil (by simp), List.append_assoc]
  rfl

theorem joined_single (word : String) : joined [word] = word.toList :=
  List.intercalate_singleton

/-- Solid words joined by blanks are the words of the text. -/
theorem words_joined (solid : ∀ word ∈ group, SolidWord word.toList) :
    words (joined group) = group ∧ blot false (joined group) = spaced group.length := by
  induction group with
  | nil => exact ⟨rfl, rfl⟩
  | cons first rest ih =>
    obtain ⟨some_first, first_solid⟩ := solid first List.mem_cons_self
    obtain ⟨isWords, isLayout⟩ := ih (fun word member => solid word (List.mem_cons_of_mem _ member))
    have first_solid : ∀ c ∈ first.toList, isSpace c = false := fun c member => (first_solid c member).1
    cases rest with
    | nil =>
      have ends : SpaceEnd [] := fun c never => nomatch never
      have isWord := words_word some_first first_solid ends
      have isHole := blot_word some_first first_solid ends
      rw [List.append_nil] at isWord isHole
      rw [joined_single, isWord, isHole, String.ofList_toList]
      exact ⟨rfl, rfl⟩
    | cons second rest =>
      have blank : isSpace ' ' = true := rfl
      have ends : SpaceEnd (' ' :: joined (second :: rest)) := fun c isHead =>
        Option.some.inj isHead ▸ blank
      rw [joined_cons, words_word some_first first_solid ends,
        blot_word some_first first_solid ends, words_space blank,
        isWords, blot, if_pos blank, isLayout, String.ofList_toList]
      exact ⟨rfl, rfl⟩

/-- The words of a text are no blanks. -/
theorem mem_words {word : String} (member : word ∈ words text) :
    word.toList ≠ [] ∧ ∀ c ∈ word.toList, isSpace c = false ∧ c ∈ text := by
  induction text using word_induction with
  | nil => cases member
  | space c rest blank ih =>
    rw [words_space blank] at member
    obtain ⟨some_word, inside⟩ := ih member
    exact ⟨some_word, fun d isChar => ⟨(inside d isChar).1, List.mem_cons_of_mem _ (inside d isChar).2⟩⟩
  | word first rest some_first solid ends ih =>
    rw [words_word some_first solid ends] at member
    rcases List.mem_cons.mp member with rfl | member
    · rw [String.toList_ofList]
      exact ⟨some_first, fun d isChar => ⟨solid d isChar, List.mem_append_left _ isChar⟩⟩
    · obtain ⟨some_word, inside⟩ := ih member
      exact ⟨some_word, fun d isChar =>
        ⟨(inside d isChar).1, List.mem_append_right _ (inside d isChar).2⟩⟩

theorem words_nil (none : words text = []) : ∀ c ∈ text, isSpace c = true := by
  induction text using word_induction with
  | nil => exact fun c never => nomatch never
  | space c rest blank ih =>
    rw [words_space blank] at none
    intro d member
    rcases List.mem_cons.mp member with rfl | member
    · exact blank
    · exact ih none d member
  | word word rest some_word solid ends ih =>
    rw [words_word some_word solid ends] at none
    cases none

theorem length_spaced (count : Nat) : (spaced (count + 1)).length = 2 * count + 1 := by
  induction count with
  | zero => rfl
  | succ count ih =>
    rw [spaced, List.length_cons, List.length_cons, ih]
    omega

theorem mem_blot {inside : Bool} : some c ∈ blot inside text ↔ isSpace c = true ∧ c ∈ text := by
  induction text generalizing inside with
  | nil => simp [blot]
  | cons d rest ih =>
    by_cases blank : isSpace d = true
    · rw [blot, if_pos blank, List.mem_cons, List.mem_cons, ih, Option.some.injEq]
      constructor
      · rintro (rfl | ⟨isBlank, member⟩)
        · exact ⟨blank, .inl rfl⟩
        · exact ⟨isBlank, .inr member⟩
      · rintro ⟨isBlank, rfl | member⟩
        · exact .inl rfl
        · exact .inr ⟨isBlank, member⟩
    · have other : isSpace c = true → c ≠ d := fun isBlank same => blank (same ▸ isBlank)
      rw [blot, if_neg blank]
      split
      · rw [ih, List.mem_cons]
        exact ⟨fun ⟨isBlank, member⟩ => ⟨isBlank, .inr member⟩,
          fun ⟨isBlank, member⟩ => ⟨isBlank, member.resolve_left (other isBlank)⟩⟩
      · rw [List.mem_cons, ih, List.mem_cons]
        constructor
        · rintro (never | ⟨isBlank, member⟩)
          · cases never
          · exact ⟨isBlank, .inr member⟩
        · exact fun ⟨isBlank, member⟩ => .inr ⟨isBlank, member.resolve_left (other isBlank)⟩

end Words

/-! ## Matches -/

/-- What follows the group of a directive. -/
def Ended (rest : List Char) : Prop := ∀ c ∈ rest.head?, c ∈ ['#', '\r', '\n']

/-- What follows a directive without words. -/
def Bare (rest : List Char) : Prop := ∀ c ∈ (rest.dropWhile isLineEnd).head?, c = '#'

/-- The words, the characters and the rest of the text of a match. -/
inductive Matched : List String → List Char → List Char → Prop where
  | named (blanks group rest : List Char) (some_blank : blanks ≠ [])
      (blank : ∀ c ∈ blanks, isSpace c = true)
      (begins : ∃ c tail, group = c :: tail ∧ isSpace c = false)
        (inside : ∀ c ∈ group, c ∉ ['#', '\r', '\n'])
      (ended : Ended rest) : Matched (words group) ("!include".toList ++ blanks ++ group) rest
  | bare (blanks rest : List Char) (two : 2 ≤ blanks.length)
      (blank : ∀ c ∈ blanks, isSpace c = true) (left : Bare rest) :
      Matched [] ("!include".toList ++ blanks) rest

section Matches
variable {c : Char} {text rest blanks : List Char} {group : List String} {n : Nat}

theorem takeWhile_leading {p : Char → Bool} (all : ∀ c ∈ blanks, p c = true)
    (stops : ∀ c ∈ rest.head?, p c = false) :
    (blanks ++ rest).takeWhile p = blanks ∧ (blanks ++ rest).dropWhile p = rest := by
  have nothing : rest.takeWhile p = [] ∧ rest.dropWhile p = rest := by
    cases rest with
    | nil => exact ⟨rfl, rfl⟩
    | cons c rest =>
      have stop : ¬ p c = true := Bool.eq_false_iff.mp (stops c rfl)
      exact ⟨List.takeWhile_cons_of_neg stop, List.dropWhile_cons_of_neg stop⟩
  rw [List.takeWhile_append_of_pos all, List.dropWhile_append_of_pos all, nothing.1, nothing.2,
    List.append_nil]
  exact ⟨rfl, rfl⟩

theorem isSpace_isLineEnd (isEnd : isLineEnd c = true) : isSpace c = true := by
  unfold isLineEnd at isEnd
  rcases (Bool.or_eq_true _ _).mp isEnd with same | same
  · cases of_decide_eq_true same
    rfl
  · cases of_decide_eq_true same
    rfl

theorem head_takeWhile {p : Char → Bool} (some_taken : text.takeWhile p ≠ []) :
    ∃ c rest, text = c :: rest ∧ p c = true ∧ text.takeWhile p = c :: rest.takeWhile p := by
  cases text with
  | nil => exact absurd rfl some_taken
  | cons c rest =>
    by_cases taken : p c = true
    · exact ⟨c, rest, rfl, taken, List.takeWhile_cons_of_pos taken⟩
    · exact absurd (List.takeWhile_cons_of_neg taken) some_taken

theorem head_dropWhile {p : Char → Bool} (isHead : c ∈ (text.dropWhile p).head?) : p c = false := by
  have stops := List.head?_dropWhile_not p text
  rw [isHead] at stops
  simpa using stops

/-- After blanks that no group follows there is a comment or nothing. -/
theorem head_after_blanks
    (no_group : (text.dropWhile isSpace).takeWhile (fun c => c ∉ ['#', '\r', '\n']) = []) :
    ∀ c ∈ (text.dropWhile isSpace).head?, c = '#' := by
  intro c isHead
  have solid := head_dropWhile isHead
  have outside : c ∈ ['#', '\r', '\n'] := by
    by_contra inside
    obtain ⟨tail, isText⟩ := List.head?_eq_some_iff.mp isHead
    rw [isText, List.takeWhile_cons_of_pos (p := fun c => c ∉ ['#', '\r', '\n'])
      (decide_eq_true inside)] at no_group
    cases no_group
  rcases List.mem_cons.mp outside with same | outside
  · exact same
  · rcases List.mem_cons.mp outside with rfl | outside
    · cases solid
    · cases List.mem_singleton.mp outside
      cases solid

/-- A match as the expression finds it. -/
theorem includeMatch_matched (found : includeMatch text = some (group, n)) :
    ∃ span rest, text = span ++ rest ∧ n = span.length ∧ Matched group span rest := by
  unfold includeMatch at found
  split at found
  · rename_i begins
    obtain ⟨after, rfl⟩ := List.isPrefixOf_iff_prefix.mp begins
    have dropped : ("!include".toList ++ after).drop 8 = after := rfl
    rw [dropped] at found
    have whole : after.takeWhile isSpace ++ after.dropWhile isSpace = after :=
      List.takeWhile_append_dropWhile
    have blank : ∀ c ∈ after.takeWhile isSpace, isSpace c = true := fun c member =>
      List.all_eq_true.mp List.all_takeWhile c member
    dsimp only at found
    split at found
    · cases found
    · rename_i some_blank
      split at found
      · rename_i some_group
        cases found
        have split : (after.dropWhile isSpace).takeWhile (fun c => c ∉ ['#', '\r', '\n']) ++
            (after.dropWhile isSpace).dropWhile (fun c => c ∉ ['#', '\r', '\n']) =
              after.dropWhile isSpace :=
          List.takeWhile_append_dropWhile
        refine ⟨"!include".toList ++ after.takeWhile isSpace ++ (after.dropWhile isSpace).takeWhile _,
          (after.dropWhile isSpace).dropWhile (fun c => c ∉ ['#', '\r', '\n']), ?_, ?_,
          .named _ _ _ some_blank blank ?_ ?_ ?_⟩
        · rw [List.append_assoc, List.append_assoc, split, whole]
        · rw [List.length_append, List.length_append]
          rfl
        · obtain ⟨c, tail, isText, _, taken⟩ := head_takeWhile some_group
          refine ⟨c, _, taken, @head_dropWhile _ after _ ?_⟩
          rw [isText]
          exact rfl
        · exact fun c member => of_decide_eq_true (List.all_eq_true.mp List.all_takeWhile c member)
        · intro c isHead
          exact not_not.mp (of_decide_eq_false (head_dropWhile isHead))
      · rename_i no_group
        have no_group := not_not.mp no_group
        split at found
        · cases found
        · rename_i some_given
          cases found
          obtain ⟨first, later, isBlanks⟩ := List.exists_cons_of_ne_nil some_blank
          rw [isBlanks] at whole blank some_given ⊢
          have split :
              (later.reverse.dropWhile isLineEnd).reverse ++
                (later.reverse.takeWhile isLineEnd).reverse = later := by
            rw [← List.reverse_append, List.takeWhile_append_dropWhile, List.reverse_reverse]
          have ends : ∀ c ∈ (later.reverse.takeWhile isLineEnd).reverse, isLineEnd c = true :=
            fun c member =>
            List.all_eq_true.mp List.all_takeWhile c (List.mem_reverse.mp member)
          have hash := head_after_blanks no_group
          have left : Bare ((later.reverse.takeWhile isLineEnd).reverse ++
            after.dropWhile isSpace) := by
            have stops : ∀ c ∈ (after.dropWhile isSpace).head?, isLineEnd c = false :=
              fun c isHead => by
              rw [hash c isHead]
              rfl
            rw [Bare, (takeWhile_leading ends stops).2]
            exact hash
          refine ⟨"!include".toList ++ first :: (later.reverse.dropWhile isLineEnd).reverse, _, ?_,
            ?_, .bare _ _ ?_ ?_ left⟩
          · conv_lhs => rw [← whole, ← split]
            simp
          · rw [List.length_append, List.length_cons, List.length_reverse, List.tail_cons]
            exact Nat.add_comm _ _ ▸ Nat.add_left_comm 8 _ 1 ▸ rfl
          · have positive := List.length_pos_of_ne_nil some_given
            rw [List.tail_cons] at positive
            rw [List.length_cons, List.length_reverse]
            omega
          · intro c member
            rcases List.mem_cons.mp member with rfl | member
            · exact blank c List.mem_cons_self
            · refine blank c (List.mem_cons_of_mem _ ?_)
              rw [← split]
              exact List.mem_append_left _ member
  · cases found

theorem includeMatch_none : includeMatch text = none ↔ ("!include".toList.isPrefixOf text = true →
    (text.drop 8).takeWhile isSpace = [] ∨
      ¬ ((text.drop 8).dropWhile isSpace).takeWhile (fun c => c ∉ ['#', '\r', '\n']) ≠ [] ∧
        ((text.drop 8).takeWhile isSpace).tail.reverse.dropWhile isLineEnd = []) := by
  unfold includeMatch
  split
  · rename_i begins
    dsimp only
    split
    · rename_i blank
      exact iff_of_true rfl (fun _ => .inl blank)
    · rename_i blank
      split
      · rename_i named
        exact iff_of_false (fun never => nomatch never)
          (fun quiet => (quiet begins).elim blank (fun bare => bare.1 named))
      · rename_i named
        split
        · rename_i nothing
          exact iff_of_true rfl (fun _ => .inr ⟨named, nothing⟩)
        · rename_i given
          exact iff_of_false (fun never => nomatch never)
            (fun quiet => (quiet begins).elim blank (fun bare => given bare.2))
  · rename_i other
    exact iff_of_true rfl (fun begins => absurd begins other)

theorem includeMatch_other (other : c ≠ '!') : includeMatch (c :: rest) = none := by
  have mismatch : "!include".toList.isPrefixOf (c :: rest) = false :=
    Bool.and_eq_false_imp.mpr (fun same => absurd (beq_iff_eq.mp same).symm other)
  rw [includeMatch, mismatch, if_neg Bool.noConfusion]

theorem directive_eq (group : List String) :
    directive group = "!include".toList ++ ' ' :: joined group := rfl

theorem include_cons : "!include".toList = '!' :: "include".toList := rfl

theorem directive_nil : directive [] = '!' :: "include ".toList := rfl

theorem joined_inside (solid : ∀ word ∈ group, SolidWord word.toList) :
    ∀ c ∈ joined group, c ∉ ['#', '\r', '\n'] := by
  induction group with
  | nil => exact fun c never => nomatch never
  | cons first rest ih =>
    have inFirst : ∀ c ∈ first.toList, c ∉ ['#', '\r', '\n'] := by
      intro c member outside
      obtain ⟨isSolid, isNoHash⟩ := (solid first List.mem_cons_self).2 c member
      rcases List.mem_cons.mp outside with same | outside
      · exact isNoHash same
      · rcases List.mem_cons.mp outside with rfl | outside
        · cases isSolid
        · cases List.mem_singleton.mp outside
          cases isSolid
    cases rest with
    | nil =>
      rw [joined_single]
      exact inFirst
    | cons second rest =>
      rw [joined_cons]
      intro c member
      rcases List.mem_append.mp member with member | member
      · exact inFirst c member
      · rcases List.mem_cons.mp member with rfl | member
        · decide
        · exact ih (fun word member => solid word (List.mem_cons_of_mem _ member)) c member

theorem joined_begins (some_group : group ≠ []) (solid : ∀ word ∈ group, SolidWord word.toList) :
    ∃ c tail, joined group = c :: tail ∧ isSpace c = false := by
  cases group with
  | nil => exact absurd rfl some_group
  | cons first rest =>
    obtain ⟨some_first, isSolid⟩ := solid first List.mem_cons_self
    obtain ⟨c, tail, isText⟩ := List.exists_cons_of_ne_nil some_first
    have plain : isSpace c = false := (isSolid c (isText ▸ List.mem_cons_self)).1
    cases rest with
    | nil => exact ⟨c, tail, (joined_single first).trans isText, plain⟩
    | cons second rest =>
      exact ⟨c, _, (joined_cons first second rest).trans (congrArg (· ++ _) isText), plain⟩

/-- A directive of solid words is found as it is spelled. -/
theorem includeMatch_directive (some_group : group ≠ []) (solid : ∀ word ∈ group, SolidWord word.toList)
    (ended : Ended rest) :
    includeMatch (directive group ++ rest) = some (group, (directive group).length) := by
  obtain ⟨c, tail, isText, plain⟩ := joined_begins some_group solid
  have begins : "!include".toList.isPrefixOf (directive group ++ rest) = true :=
    List.isPrefixOf_iff_prefix.mpr ⟨' ' :: joined group ++ rest, rfl⟩
  have dropped : (directive group ++ rest).drop 8 = [' '] ++ (joined group ++ rest) := rfl
  obtain ⟨blanks, after⟩ : ([' '] ++ (joined group ++ rest)).takeWhile isSpace = [' '] ∧
      ([' '] ++ (joined group ++ rest)).dropWhile isSpace = joined group ++ rest := by
    refine takeWhile_leading (fun c member => List.mem_singleton.mp member ▸ rfl) (fun d isHead => ?_)
    rw [isText, List.cons_append, List.head?_cons] at isHead
    exact Option.some.inj isHead ▸ plain
  have taken : (joined group ++ rest).takeWhile (fun c => c ∉ ['#', '\r', '\n']) = joined group :=
    (takeWhile_leading (fun c member => decide_eq_true (joined_inside solid c member))
      (fun c isHead => decide_eq_false (not_not.mpr (ended c isHead)))).1
  have some_joined : joined group ≠ [] := by
    rw [isText]
    exact List.cons_ne_nil _ _
  rw [includeMatch, if_pos begins, dropped]
  dsimp only
  rw [blanks, after, taken, if_neg (List.cons_ne_nil _ _), if_pos some_joined,
    (words_joined solid).1, directive_eq,
    List.length_append, List.length_singleton, List.length_cons, Nat.add_assoc,
      Nat.add_comm 1 (joined group).length]
  rfl

/-- What is left of a directive without words is none. -/
theorem includeMatch_bare (left : Bare rest) : includeMatch (directive [] ++ rest) = none := by
  have begins : "!include".toList.isPrefixOf (directive [] ++ rest) = true :=
    List.isPrefixOf_iff_prefix.mpr ⟨' ' :: rest, rfl⟩
  have dropped : (directive [] ++ rest).drop 8 = ' ' :: rest := rfl
  have whole : rest.takeWhile isLineEnd ++ rest.dropWhile isLineEnd = rest :=
    List.takeWhile_append_dropWhile
  have ends : ∀ c ∈ rest.takeWhile isLineEnd, isLineEnd c = true := fun c member =>
    List.all_eq_true.mp List.all_takeWhile c member
  have split : ' ' :: rest.takeWhile isLineEnd ++ rest.dropWhile isLineEnd = ' ' :: rest :=
    congrArg (' ' :: ·) whole
  obtain ⟨blanks, after⟩ : (' ' :: rest).takeWhile isSpace = ' ' :: rest.takeWhile isLineEnd ∧
      (' ' :: rest).dropWhile isSpace = rest.dropWhile isLineEnd := by
    rw [← split]
    refine takeWhile_leading (fun c member => ?_) (fun c isHead => left c isHead ▸ rfl)
    rcases List.mem_cons.mp member with rfl | member
    · rfl
    · exact isSpace_isLineEnd (ends c member)
  have no_group : (rest.dropWhile isLineEnd).takeWhile (fun c => c ∉ ['#', '\r', '\n']) = [] := by
    cases isRest : rest.dropWhile isLineEnd with
    | nil => rfl
    | cons c tail =>
      have hash : c = '#' := left c (isRest ▸ rfl)
      rw [hash]
      rfl
  have nothing : (rest.takeWhile isLineEnd).reverse.dropWhile isLineEnd = [] :=
    List.dropWhile_eq_nil_iff.mpr (fun c member => ends c (List.mem_reverse.mp member))
  rw [includeMatch, if_pos begins, dropped]
  dsimp only
  rw [blanks, after, no_group, List.tail_cons, nothing, if_neg (List.cons_ne_nil _ _),
    if_neg (not_not.mpr rfl), if_pos rfl]

end Matches

/-! ## Texts that agree up to the next directive -/

inductive Agree : List Char → List Char → Prop where
  | done : Agree [] []
  | stop (x y : List Char) : Agree ('!' :: x) ('!' :: y)
  | cons (c : Char) {x y : List Char} (rest : Agree x y) : Agree (c :: x) (c :: y)

namespace Agree
variable {x y : List Char}

theorem ended (agree : Agree x y) (ends : Ended x) : Ended y := by
  cases agree with
  | done => exact ends
  | stop x y => exact absurd (ends '!' rfl) (by decide)
  | cons c rest => exact ends

theorem bare (agree : Agree x y) (left : Bare x) : Bare y := by
  induction agree with
  | done => exact left
  | stop x y => exact absurd (left '!' rfl) (by decide)
  | @cons c x y rest ih =>
    unfold Bare at left ih ⊢
    by_cases isEnd : isLineEnd c = true
    · rw [List.dropWhile_cons_of_pos isEnd] at left ⊢
      exact ih left
    · rw [List.dropWhile_cons_of_neg isEnd] at left ⊢
      exact left

theorem head (agree : Agree x y) {word : List Char} (plain : '!' ∉ word) :
    word.isPrefixOf x = word.isPrefixOf y ∧
      (word.isPrefixOf x = true → Agree (x.drop word.length) (y.drop word.length)) := by
  induction word generalizing x y with
  | nil => exact ⟨rfl, fun _ => agree⟩
  | cons first word ih =>
    have other : (first == '!') = false :=
      beq_eq_false_iff_ne.mpr (fun same => plain (same ▸ List.mem_cons_self))
    have plain : '!' ∉ word := fun member => plain (List.mem_cons_of_mem _ member)
    cases agree with
    | done => exact ⟨rfl, fun never => nomatch never⟩
    | stop x y =>
      rw [List.isPrefixOf, List.isPrefixOf, other]
      exact ⟨rfl, fun never => nomatch never⟩
    | cons c rest =>
      obtain ⟨same, later⟩ := ih rest plain
      rw [List.isPrefixOf, List.isPrefixOf, same]
      refine ⟨rfl, fun matched => later ?_⟩
      rw [same]
      exact (Bool.and_eq_true_iff.mp matched).2

theorem spaces (agree : Agree x y) :
    x.takeWhile isSpace = y.takeWhile isSpace ∧ Agree (x.dropWhile isSpace) (y.dropWhile isSpace) := by
  induction agree with
  | done => exact ⟨rfl, .done⟩
  | stop x y => exact ⟨rfl, .stop x y⟩
  | @cons c x y rest ih =>
    rw [List.takeWhile_cons, List.takeWhile_cons, List.dropWhile_cons, List.dropWhile_cons]
    split
    · exact ⟨congrArg (c :: ·) ih.1, ih.2⟩
    · exact ⟨rfl, .cons c rest⟩

theorem group (agree : Agree x y) :
    x.takeWhile (fun c => c ∉ ['#', '\r', '\n']) ≠ [] ↔
      y.takeWhile (fun c => c ∉ ['#', '\r', '\n']) ≠ [] := by
  cases agree with
  | done => exact Iff.rfl
  | stop x y => exact iff_of_true (List.cons_ne_nil _ _) (List.cons_ne_nil _ _)
  | cons c rest =>
    rw [List.takeWhile_cons, List.takeWhile_cons]
    split
    · exact iff_of_true (List.cons_ne_nil _ _) (List.cons_ne_nil _ _)
    · exact Iff.rfl

/-- Whether a directive begins at a character is decided before the next one begins. -/
theorem quiet (agree : Agree x y) {c : Char} (nothing : includeMatch (c :: x) = none) :
    includeMatch (c :: y) = none := by
  by_cases begins : c = '!'
  · subst begins
    obtain ⟨same, later⟩ := @head _ _ agree "include".toList (by decide)
    rw [includeMatch_none] at nothing ⊢
    intro isPrefix
    have isPrefix : "include".toList.isPrefixOf x = true := same.trans isPrefix
    have tail : Agree (x.drop 7) (y.drop 7) := later isPrefix
    obtain ⟨blanks, after⟩ := tail.spaces
    change (y.drop 7).takeWhile isSpace = [] ∨ ¬ ((y.drop 7).dropWhile isSpace).takeWhile _ ≠ [] ∧
      ((y.drop 7).takeWhile isSpace).tail.reverse.dropWhile isLineEnd = []
    rw [← after.group]
    exact blanks ▸ nothing isPrefix
  · exact includeMatch_other begins

end Agree

/-! ## Every directive written anew -/

/-- A part of a configuration with holes for the targets of its directive. -/
def outline : Piece Char (List String) → List (Option Char)
  | .plain c => [some c]
  | .token _ span => (span.take 8).map some ++ blot false (span.drop 8)

/-- What a configuration has outside the targets of its directives, and where the targets are. -/
def layout (text : List Char) : List (Option Char) := (pieces includeMatch 0 text).flatMap outline

/-- What becomes of a part when its words are written anew. A directive without words is none any
more. -/
def respell (anew : String → String) : Piece Char (List String) → List (Piece Char (List String))
  | .plain c => [.plain c]
  | .token group _ =>
    if group = [] then (directive []).map .plain
      else [.token (group.map anew) (directive (group.map anew))]

section Respelling
variable {parts : List (Piece Char (List String))} {anew : String → String} {group : List String}
  {c : Char}
variable {span text : List Char}

theorem Matched.span_begins {rest : List Char} (matched : Matched group span rest) :
    ∃ blank after, isSpace blank = true ∧ span = "!include".toList ++ blank :: after := by
  cases matched with
  | named blanks group rest some_blank blank =>
    obtain ⟨first, later, rfl⟩ := List.exists_cons_of_ne_nil some_blank
    exact ⟨first, later ++ group, blank first List.mem_cons_self, List.append_assoc _ _ _⟩
  | bare blanks rest two blank =>
    obtain ⟨first, later, rfl⟩ : ∃ first later, blanks = first :: later :=
      List.exists_cons_of_ne_nil (fun none => by rw [none] at two; exact absurd two (by decide))
    exact ⟨first, later, blank first List.mem_cons_self, rfl⟩

theorem Matched.left {rest : List Char} (matched : Matched group span rest) (none : group = []) :
    Bare rest := by
  cases matched with
  | named blanks group rest some_blank blank begins inside ended =>
    obtain ⟨c, tail, rfl, solid⟩ := begins
    rw [words_nil none c List.mem_cons_self] at solid
    cases solid
  | bare blanks rest two blank left => exact left

theorem Matched.blanks {rest : List Char} (matched : Matched group span rest) (none : group = []) :
    ∃ blanks, span = "!include".toList ++ blanks ∧ ∀ c ∈ blanks, isSpace c = true := by
  cases matched with
  | named blanks group rest some_blank blank begins inside ended =>
    obtain ⟨c, tail, rfl, solid⟩ := begins
    rw [words_nil none c List.mem_cons_self] at solid
    cases solid
  | bare blanks rest two blank left => exact ⟨blanks, rfl, blank⟩

theorem includeMatch_within {s : List Char} {n : Nat} (found : includeMatch s = some (group, n)) :
    0 < n ∧ n ≤ s.length := by
  obtain ⟨span, rest, rfl, rfl, matched⟩ := includeMatch_matched found
  obtain ⟨blank, after, _, rfl⟩ := matched.span_begins
  exact ⟨Nat.succ_pos _, (List.prefix_append _ rest).length_le⟩

/-- The parts of a text are segmented and spell it. -/
theorem segmented_pieces (text : List Char) :
    Segmented includeMatch (pieces includeMatch 0 text) ∧ spell (pieces includeMatch 0 text) = text :=
  pieces_segmented includeMatch_within text

theorem matched_of_found
    (found : includeMatch (c :: span ++ spell parts) = some (group, (c :: span).length)) :
    Matched group (c :: span) (spell parts) := by
  obtain ⟨same, rest, isText, isLength, matched⟩ := includeMatch_matched found
  obtain ⟨rfl, rfl⟩ := List.append_inj isText isLength
  exact matched

theorem spell_respell (parts : List (Piece Char (List String))) : spell (parts.flatMap (respell anew)) =
    parts.flatMap (Piece.rewritten (fun group => directive (group.map anew))) := by
  induction parts with
  | nil => rfl
  | cons part rest ih =>
    rw [List.flatMap_cons, List.flatMap_cons, spell_append, ih]
    congr 1
    cases part with
    | plain c => rfl
    | token group span =>
      rw [respell]
      split
      · rename_i none
        rw [spell_plain, none]
        rfl
      · exact List.append_nil _

theorem tokens_respell (parts : List (Piece Char (List String))) :
    (tokens (parts.flatMap (respell anew))).flatten = ((tokens parts).flatten).map anew := by
  induction parts with
  | nil => rfl
  | cons part rest ih =>
    rw [List.flatMap_cons, tokens_append, List.flatten_append, ih]
    cases part with
    | plain c => rfl
    | token group span =>
      rw [respell]
      split
      · rename_i none
        rw [tokens_plain, none]
        rfl
      · change (group.map anew ++ []) ++ _ = (group ++ (tokens rest).flatten).map anew
        rw [List.append_nil, List.map_append]

theorem agree_respell (segmented : Segmented includeMatch parts) :
    Agree (spell parts) (spell (parts.flatMap (respell anew))) := by
  induction segmented with
  | nil => exact .done
  | plain c parts _ _ ih => exact .cons c ih
  | token group c span parts found _ _ =>
    obtain ⟨blank, after, _, isSpan⟩ := (matched_of_found found).span_begins
    rw [spell_respell, List.flatMap_cons, spell_cons]
    change Agree (c :: span ++ spell parts) (directive (group.map anew) ++ _)
    rw [isSpan]
    exact .stop _ _

/-- Characters at which nothing begins, before parts. -/
theorem segmented_before (segmented : Segmented includeMatch parts) {word : List Char}
    (plain : '!' ∉ word) :
    Segmented includeMatch (word.map .plain ++ parts) := by
  induction word with
  | nil => exact segmented
  | cons c word ih =>
    refine .plain c _ (includeMatch_other fun same => plain (same ▸ List.mem_cons_self)) ?_
    exact ih (fun member => plain (List.mem_cons_of_mem _ member))

/-- Solid words make directives where there were directives with words, and nowhere else. -/
theorem segmented_respell (segmented : Segmented includeMatch parts)
    (solid : ∀ group ∈ tokens parts, ∀ word ∈ group, SolidWord (anew word).toList) :
    Segmented includeMatch (parts.flatMap (respell anew)) := by
  induction segmented with
  | nil => exact .nil
  | plain c parts quiet rest ih => exact .plain c _ ((agree_respell rest).quiet quiet) (ih solid)
  | token group c span parts found rest ih =>
    have later := ih (fun group member => solid group (List.mem_cons_of_mem _ member))
    have agree := @agree_respell _ anew rest
    have matched := matched_of_found found
    rw [List.flatMap_cons, respell]
    split
    · rename_i none
      have left : Bare (spell parts) := matched.left none
      have first :
          includeMatch ('!' ::
            spell ("include ".toList.map .plain ++ parts.flatMap (respell anew))) = Option.none := by
        rw [spell_append, spell_plain]
        exact includeMatch_bare (agree.bare left)
      rw [directive_nil]
      exact .plain '!' _ first (segmented_before later (by decide))
    · rename_i some_group
      have ended : Ended (spell parts) := by
        cases matched with
        | named blanks group rest some_blank blank begins inside ended => exact ended
        | bare => exact absurd rfl some_group
      have words_solid : ∀ word ∈ group.map anew, SolidWord word.toList := by
        intro word member
        obtain ⟨old, isOld, rfl⟩ := List.mem_map.mp member
        exact solid group List.mem_cons_self old isOld
      refine .token _ '!' _ _ ?_ later
      exact includeMatch_directive
        (fun none => some_group (List.map_eq_nil_iff.mp none)) words_solid (agree.ended ended)

/-! ### The targets -/

theorem includeToken_quiet (nothing : includeMatch text = none) : includeToken text = none := by
  rw [includeToken, nothing]
  rfl

/-- A match without words names nothing. -/
theorem includeToken_found {n : Nat} (found : includeMatch text = some (group, n)) :
    includeToken text = if group = [] then none else some (group, n) := by
  rw [includeToken, found, Option.filter_some]
  simp

theorem targetsOf_quiet {word : List Char} (plain : '!' ∉ word) :
    targetsOf (word ++ text) = targetsOf text := by
  induction word with
  | nil => rfl
  | cons c word ih =>
    have other : c ≠ '!' := fun same => plain (same ▸ List.mem_cons_self)
    rw [List.cons_append, targetsOf_cons c (includeToken_quiet (includeMatch_other other))]
    exact ih (fun member => plain (List.mem_cons_of_mem _ member))

theorem targetsOf_spell (segmented : Segmented includeMatch parts) :
    targetsOf (spell parts) = (tokens parts).flatten := by
  induction segmented with
  | nil => rfl
  | plain c parts quiet _ ih => exact (targetsOf_cons c (includeToken_quiet quiet)).trans ih
  | token group c span parts found _ ih =>
    have token := includeToken_found found
    rw [spell_cons]
    change targetsOf (c :: span ++ spell parts) = group ++ (tokens parts).flatten
    rw [← ih]
    split at token
    · rename_i none
      obtain ⟨blanks, isSpan, blank⟩ := (matched_of_found found).blanks none
      rw [include_cons, List.cons_append] at isSpan
      obtain ⟨rfl, rfl⟩ := List.cons.inj isSpan
      have quiet : '!' ∉ "include".toList ++ blanks := fun member =>
        (List.mem_append.mp member).elim (by decide) (fun member => nomatch blank '!' member)
      rw [none]
      exact (targetsOf_cons '!' token).trans (targetsOf_quiet quiet)
    · rw [targetsOf_found token]
      exact congrArg (group ++ targetsOf ·) List.drop_left

theorem targetsOf_pieces (text : List Char) :
    targetsOf text = (tokens (pieces includeMatch 0 text)).flatten := by
  obtain ⟨segmented, spelled⟩ := segmented_pieces text
  conv_lhs => rw [← spelled]
  exact targetsOf_spell segmented

/-! ### The layout -/

theorem blot_blanks {blanks : List Char} (blank : ∀ c ∈ blanks, isSpace c = true) :
    blot false (blanks ++ text) = blanks.map some ++ blot false text := by
  induction blanks with
  | nil => rfl
  | cons c blanks ih =>
    rw [List.cons_append, blot, if_pos (blank c List.mem_cons_self),
      ih (fun d member => blank d (List.mem_cons_of_mem _ member))]
    rfl

theorem outline_include (group : List String) (after : List Char) :
    outline (.token group ("!include".toList ++ after)) = "!include".toList.map some ++
      blot false after := rfl

theorem solid_words (inside : ∀ c ∈ text, c ∉ ['#', '\r', '\n']) :
    ∀ word ∈ words text, SolidWord word.toList := by
  intro word member
  obtain ⟨some_word, chars⟩ := mem_words member
  refine ⟨some_word, fun c isChar => ⟨(chars c isChar).1, fun hash => ?_⟩⟩
  exact inside c (chars c isChar).2 (hash ▸ List.mem_cons_self)

theorem outline_directive (solid : ∀ word ∈ group, SolidWord word.toList) (other : List String) :
    outline (.token other (directive group)) = "!include".toList.map some ++ some ' ' ::
      spaced group.length := by
  rw [directive_eq, outline_include, blot, if_pos (show isSpace ' ' = true from rfl),
    (words_joined solid).2]

/-- Words laid out with single blanks are joined by them. -/
theorem blot_spaced_iff (solid : ∀ word ∈ words text, SolidWord word.toList) :
    blot false text = spaced (words text).length ↔ text = joined (words text) := by
  obtain ⟨isWords, isLayout⟩ := words_joined solid
  constructor
  · intro same
    calc
      text = fillIn (blot false text) (words text) := (fillIn_blot text).symm
      _ = fillIn (blot false (joined (words text))) (words (joined (words text))) := by
        rw [same, isLayout, isWords]
      _ = joined (words text) := fillIn_blot _
  · intro same
    rw [← isLayout, ← same]

/-- A directive written anew has no more outside its targets than it had, and the same if it was
spelled as the repository spells it. -/
theorem outline_respell {rest : List Char} (matched : Matched group span rest)
    (solid : ∀ word ∈ group, SolidWord (anew word).toList) :
    ((respell anew (.token group span)).flatMap outline).length ≤ (outline (.token group span)).length ∧
      ((respell anew (.token group span)).flatMap outline = outline (.token group span) ↔
        span = directive group) := by
  cases matched with
  | named blanks group rest some_blank blank begins inside ended =>
    obtain ⟨c, tail, isText, isSolid⟩ := begins
    have some_words : words group ≠ [] := by
      intro none
      rw [words_nil none c (isText ▸ List.mem_cons_self)] at isSolid
      cases isSolid
    have anew_solid : ∀ word ∈ (words group).map anew, SolidWord word.toList := by
      intro word member
      obtain ⟨old, isOld, rfl⟩ := List.mem_map.mp member
      exact solid old isOld
    have new : (respell anew
      (.token (words group) ("!include".toList ++ blanks ++ group))).flatMap outline =
        "!include".toList.map some ++ some ' ' :: spaced (words group).length := by
      rw [respell, if_neg some_words, List.flatMap_cons, List.flatMap_nil, List.append_nil,
        outline_directive anew_solid,
        List.length_map]
    have old : outline (.token (words group) ("!include".toList ++ blanks ++ group)) =
        "!include".toList.map some ++ (blanks.map some ++ blot false group) := by
      rw [List.append_assoc, outline_include, blot_blanks blank]
    obtain ⟨first, later, rfl⟩ := List.exists_cons_of_ne_nil some_blank
    obtain ⟨count, isCount⟩ : ∃ count, (words group).length = count + 1 :=
      Nat.exists_eq_succ_of_ne_zero (fun none => some_words (List.length_eq_zero_iff.mp none))
    rw [new, old]
    constructor
    · have long := (blot_length group).1
      rw [isCount] at long
      rw [List.length_append, List.length_append, List.length_append, List.length_cons,
        List.length_map, List.length_map,
        List.length_cons, isCount, length_spaced]
      omega
    · rw [List.append_cancel_left_eq, directive_eq, List.append_assoc, List.append_cancel_left_eq,
        List.map_cons,
        List.cons_append, List.cons_append, List.cons.injEq, List.cons.injEq, Option.some.injEq]
      refine and_congr eq_comm ?_
      cases later with
      | nil =>
        exact eq_comm.trans (blot_spaced_iff (solid_words inside))
      | cons second later =>
        obtain ⟨d, tail, isJoined, dSolid⟩ := joined_begins some_words (solid_words inside)
        refine iff_of_false (fun same => ?_) (fun same => ?_)
        · rw [isCount] at same
          cases count with
          | zero => cases same
          | succ count => cases same
        · rw [isJoined, List.cons_append] at same
          rw [← (List.cons.inj same).1,
            blank second (List.mem_cons_of_mem _ List.mem_cons_self)] at dSolid
          cases dSolid
  | bare blanks rest two blank left =>
    have old : outline (.token [] ("!include".toList ++ blanks)) = "!include".toList.map some ++
      blanks.map some := by
      have isBlank := @blot_blanks [] _ blank
      rw [List.append_nil] at isBlank
      rw [outline_include, isBlank]
      exact congrArg _ (List.append_nil _)
    have new : (respell anew (.token [] ("!include".toList ++ blanks))).flatMap outline =
        "!include".toList.map some ++ [some ' '] := rfl
    rw [new, old]
    constructor
    · rw [List.length_append, List.length_append, List.length_map, List.length_map]
      exact Nat.add_le_add_left (Nat.le_of_succ_le two) _
    · rw [List.append_cancel_left_eq, directive_eq, List.append_cancel_left_eq]
      refine iff_of_false (fun same => ?_) (fun same => ?_)
      · have long := congrArg List.length same
        rw [List.length_map, List.length_singleton] at long
        omega
      · rw [same] at two
        exact absurd two (by decide)

theorem layout_respell (segmented : Segmented includeMatch parts)
    (solid : ∀ group ∈ tokens parts, ∀ word ∈ group, SolidWord (anew word).toList) :
    ((parts.flatMap (respell anew)).flatMap outline).length ≤ (parts.flatMap outline).length ∧
      ((parts.flatMap (respell anew)).flatMap outline = parts.flatMap outline ↔
        ∀ group span, .token group span ∈ parts → span = directive group) := by
  induction segmented with
  | nil => exact ⟨Nat.le_refl _, iff_of_true rfl (fun group span never => nomatch never)⟩
  | plain c parts _ _ ih =>
    obtain ⟨shorter, same⟩ := ih solid
    refine ⟨Nat.succ_le_succ shorter, ?_⟩
    change some c :: _ = some c :: _ ↔ _
    rw [List.cons.injEq, and_iff_right rfl]
    refine same.trans (forall_congr' fun group => forall_congr' fun span => ?_)
    rw [List.mem_cons, or_iff_right (fun never => nomatch never)]
  | token group c span parts found _ ih =>
    obtain ⟨shorter, same⟩ := ih (fun group member => solid group (List.mem_cons_of_mem _ member))
    obtain ⟨shorterHere, sameHere⟩ :=
      @outline_respell anew _ _ _ (matched_of_found found) (solid group List.mem_cons_self)
    rw [List.flatMap_cons, List.flatMap_append, List.flatMap_cons]
    constructor
    · rw [List.length_append, List.length_append]
      exact Nat.add_le_add shorterHere shorter
    · constructor
      · intro whole
        have lengths := congrArg List.length whole
        rw [List.length_append, List.length_append] at lengths
        obtain ⟨here, later⟩ := List.append_inj whole (by omega)
        intro other otherSpan member
        rcases List.mem_cons.mp member with isHere | member
        · cases isHere
          exact sameHere.mp here
        · exact same.mp later other otherSpan member
      · intro spelled
        rw [sameHere.mpr (spelled group (c :: span) List.mem_cons_self),
          same.mpr (fun other otherSpan member =>
            spelled other otherSpan (List.mem_cons_of_mem _ member))]

/-- A text with every word of its directives written anew. -/
def writtenAnew (anew : String → String) (text : List Char) : List Char :=
  (pieces includeMatch 0 text).flatMap (Piece.rewritten fun group => directive (group.map anew))

/-- Every directive is spelled as the repository spells it: single blanks and no others. -/
def Canonical (text : List Char) : Prop :=
  ∀ group span, .token group span ∈ pieces includeMatch 0 text → span = directive group

theorem solid_tokens (solid : ∀ word ∈ targetsOf text, SolidWord (anew word).toList) :
    ∀ group ∈ tokens (pieces includeMatch 0 text), ∀ word ∈ group, SolidWord (anew word).toList := by
  intro group isGroup word member
  refine solid word ?_
  rw [targetsOf_pieces]
  exact List.mem_flatten.mpr ⟨group, isGroup, member⟩

theorem pieces_writtenAnew (solid : ∀ word ∈ targetsOf text, SolidWord (anew word).toList) :
    pieces includeMatch 0 (writtenAnew anew text) = (pieces includeMatch 0 text).flatMap
    (respell anew) := by
  rw [writtenAnew, ← spell_respell]
  exact (segmented_respell (segmented_pieces text).1 (solid_tokens solid)).unique

/-- The targets of the new text are the new targets. -/
theorem targetsOf_writtenAnew (solid : ∀ word ∈ targetsOf text, SolidWord (anew word).toList) :
    targetsOf (writtenAnew anew text) = (targetsOf text).map anew := by
  rw [targetsOf_pieces, pieces_writtenAnew solid, tokens_respell, ← targetsOf_pieces]

theorem layout_writtenAnew_iff (solid : ∀ word ∈ targetsOf text, SolidWord (anew word).toList) :
    layout (writtenAnew anew text) = layout text ↔ Canonical text := by
  rw [layout, pieces_writtenAnew solid]
  exact (layout_respell (segmented_pieces text).1 (solid_tokens solid)).2

theorem mem_layout_blank (blank : isSpace c = true) : some c ∈ layout text ↔ c ∈ text := by
  obtain ⟨_, spelled⟩ := segmented_pieces text
  have inside : some c ∈ layout text ↔ c ∈ spell (pieces includeMatch 0 text) := by
    unfold layout spell
    rw [List.mem_flatMap, List.mem_flatMap]
    refine exists_congr fun part => and_congr_right fun _ => ?_
    cases part with
    | plain d => simp [outline, Piece.text]
    | token group span =>
      change some c ∈ (span.take 8).map some ++ blot false (span.drop 8) ↔ c ∈ span
      conv_rhs => rw [← List.take_append_drop 8 span]
      rw [List.mem_append, List.mem_append, mem_blot, and_iff_right blank,
        List.mem_map_of_injective (Option.some_injective Char)]
  rw [inside, spelled]

/-- New words bring no carriage return. -/
theorem writtenAnew_clean (solid : ∀ word ∈ targetsOf text, SolidWord (anew word).toList)
    (clean : '\r' ∉ text) :
    '\r' ∉ writtenAnew anew text := by
  intro member
  obtain ⟨part, isPart, member⟩ := List.mem_flatMap.mp member
  cases part with
  | plain c =>
    cases List.mem_singleton.mp member
    refine clean ?_
    rw [← (segmented_pieces text).2]
    exact List.mem_flatMap.mpr ⟨_, isPart, List.mem_singleton_self _⟩
  | token group span =>
    have isToken : group ∈ tokens (pieces includeMatch 0 text) :=
      List.mem_flatMap.mpr ⟨_, isPart, List.mem_singleton_self _⟩
    have words_solid : ∀ word ∈ group.map anew, SolidWord word.toList := by
      intro word isWord
      obtain ⟨old, isOld, rfl⟩ := List.mem_map.mp isWord
      exact solid_tokens solid group isToken old isOld
    change '\r' ∈ "!include ".toList ++ joined (group.map anew) at member
    rcases List.mem_append.mp member with never | inside
    · exact absurd never (by decide)
    · exact joined_inside words_solid '\r' inside (by decide)

/-- What a text read with universal newlines and written anew keeps of the text: everything outside
its targets exactly if it has no carriage return and its directives are spelled as the repository
spells them. -/
theorem layout_newlines_iff (solid : ∀ word ∈ targetsOf (newlines text), SolidWord (anew word).toList) :
    layout (writtenAnew anew (newlines text)) = layout text ↔ '\r' ∉ text ∧ Canonical text := by
  constructor
  · intro same
    have clean : '\r' ∉ text := by
      rw [← mem_layout_blank rfl, ← same, mem_layout_blank rfl]
      exact writtenAnew_clean solid (newlines_readAs text).clean
    rw [newlines_eq_iff.mpr clean] at same solid
    exact ⟨clean, (layout_writtenAnew_iff solid).mp same⟩
  · rintro ⟨clean, canonical⟩
    rw [newlines_eq_iff.mpr clean] at solid ⊢
    exact (layout_writtenAnew_iff solid).mpr canonical

end Respelling

end LocalFlow
