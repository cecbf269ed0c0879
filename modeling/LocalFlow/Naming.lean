import LocalFlow.Directives

/-! The words that a move writes: when the path of a file from another directory is one word of a
directive, and when it leads back to the file. -/
namespace LocalFlow
open Paths FileTrees

/-! ## Spelling -/

/-- A component that a directive can hold as it is. -/
def Spellable (part : String) : Prop :=
  part ≠ "" ∧ part ≠ "." ∧ ∀ c ∈ part.toList, isSpace c = false ∧ c ∉ ['/', '\\', '#', Char.ofNat 0]

instance (part : String) : Decidable (Spellable part) :=
  @instDecidableAnd _ _ _ (@instDecidableAnd _ _ _ (List.decidableBAll _ _))

/-- The path of a file from a directory is one word, and no quote at its ends is taken for that of
the word. -/
structure Spelled (directory file : Path) : Prop where
  parts : ∀ part ∈ below directory file, Spellable part
  head : above directory file = 0 → ∀ part ∈ (below directory file).head?,
    part.toList.head?.any isQuote = false
  last : ∀ part ∈ (below directory file).getLast?, part.toList.getLast?.any isQuote = false

section Words
variable {directory file : Path} {quote text raw : String}

theorem quoteOf_quotes (raw : String) : ∀ c ∈ (quoteOf raw).toList, isQuote c = true := by
  unfold quoteOf
  split
  · split
    · rename_i c _ _ isQuote
      rw [String.toList_ofList]
      intro d member
      rwa [List.mem_singleton.mp member]
    · exact fun c never => nomatch never
  · exact fun c never => nomatch never

/-- The quotes around a word are stripped, and no more. -/
theorem unquoted_quoted (quotes : ∀ c ∈ quote.toList, isQuote c = true) (some_text : text.toList ≠ [])
    (head : ∀ c ∈ text.toList.head?, isQuote c = false)
    (last : ∀ c ∈ text.toList.getLast?, isQuote c = false) :
    unquoted (quote ++ text ++ quote) = text := by
  have ends : ∀ c ∈ (text.toList ++ quote.toList).head?, isQuote c = false := by
    intro c isHead
    rw [List.head?_append_of_ne_nil _ some_text] at isHead
    exact head c isHead
  have front := (takeWhile_leading quotes ends).2
  have back : (quote.toList.reverse ++ text.toList.reverse).dropWhile isQuote = text.toList.reverse :=
    (takeWhile_leading (fun c member => quotes c (List.mem_reverse.mp member))
      (fun c isHead => last c (by rwa [List.head?_reverse] at isHead))).2
  unfold unquoted
  rw [String.toList_append, String.toList_append, List.append_assoc, front, List.reverse_append,
    back, List.reverse_reverse,
    String.ofList_toList]

theorem map_slashes (plain : '\\' ∉ text.toList) :
    text.map (fun c => if c = '\\' then '/' else c) = text := by
  rw [← String.toList_inj, String.toList_map]
  refine (List.map_congr_left fun c member => ?_).trans (List.map_id _)
  exact if_neg fun (same : c = '\\') => plain (same ▸ member)

namespace Spelled

theorem named (spelled : Spelled directory file) :
    ∀ part ∈ below directory file, part ≠ "" ∧ part ≠ "." ∧ '/' ∉ part.toList := by
  intro part member
  obtain ⟨some_part, plain, inside⟩ := spelled.parts part member
  exact ⟨some_part, plain, fun slash => (inside '/' slash).2 List.mem_cons_self⟩

/-- A character of the word is a dot, a slash or one of a component. -/
theorem solid (spelled : Spelled directory file) (plainDirectory : Plain directory)
    (plainFile : Plain file) :
    ∀ c ∈ (relpath file directory).toList, isSpace c = false ∧ c ∉ ['\\', '#', Char.ofNat 0] := by
  intro c member
  rcases mem_relpath plainDirectory plainFile member with rfl | rfl | ⟨part, isPart, member⟩
  · decide
  · decide
  · obtain ⟨unspaced, other⟩ := (spelled.parts part isPart).2.2 c member
    exact ⟨unspaced, fun inside => other (List.mem_cons_of_mem _ inside)⟩

theorem some_text (plainDirectory : Plain directory) (plainFile : Plain file)
    (spelled : Spelled directory file) :
    (relpath file directory).toList ≠ [] := by
  intro none
  have same : relpath file directory = "" := String.toList_inj.mp none
  have joined := join_relpath plainDirectory plainFile spelled.named []
  rw [same] at joined
  rcases relpath_text plainDirectory plainFile with ⟨_, isText⟩ | ⟨some_way, _⟩
  · rw [same] at isText
    exact absurd isText (by decide)
  · exact some_way joined.symm

theorem unquoted_word (plainDirectory : Plain directory) (plainFile : Plain file)
    (spelled : Spelled directory file)
    (raw : String) : unquoted (quoteOf raw ++ relpath file directory ++ quoteOf raw) =
      relpath file directory := by
  refine unquoted_quoted (quoteOf_quotes raw) (some_text plainDirectory plainFile spelled)
    (fun c isHead => ?_)
    (fun c isLast => ?_)
  · rcases head_relpath plainDirectory plainFile spelled.named isHead with rfl | ⟨none, part,
      isPart, begins⟩
    · rfl
    · exact (Option.any_eq_false _ _).mp (spelled.head none part isPart) c begins
  · rcases last_relpath plainDirectory plainFile spelled.named isLast with rfl | ⟨part, isPart, ends⟩
    · rfl
    · exact (Option.any_eq_false _ _).mp (spelled.last part isPart) c ends

end Spelled
end Words

/-! ## Leading back -/

namespace ConfigTree
variable (tree : ConfigTree) (limit : Nat)

/-- The file that a word of a configuration's directive names. -/
def named (sourcePath : Path) (raw : String) : Path :=
  tree.resolve limit [] (join (parent sourcePath) (unquoted raw))

/-- The directory above a real one by as many levels as a written one lies below what it shares with
a file. -/
def climbed (written real file : Path) : Path := real.take (real.length - above written file)

/-- A file can be named from a directory that is written so and really is that one: its path is one
word, no link is left in it, and both directories have the same one above them where the path stops
climbing. -/
structure Nameable (written real file : Path) : Prop where
  spelled : Spelled written file
  settled : tree.Settled file
  aligned : climbed written real file = shared written file

end ConfigTree

section Leading
variable {tree left : ConfigTree} {limit : Nat} {sourcePath targetPath place real : Path} {raw : String}

theorem named_plain : Plain (tree.named limit sourcePath raw) := FileTree.settle_plain List.not_mem_nil

theorem rewrittenWord_eq (plain : Plain (parent targetPath))
    (spelled : Spelled (parent targetPath) (tree.named limit sourcePath raw)) :
    rewrittenWord (tree.volume limit) sourcePath targetPath raw =
      quoteOf raw ++ relpath (tree.named limit sourcePath raw) (parent targetPath) ++ quoteOf raw := by
  have straight : '\\' ∉ (relpath (tree.named limit sourcePath raw) (parent targetPath)).toList :=
    fun member =>
    (spelled.solid plain named_plain _ member).2 List.mem_cons_self
  exact congrArg (fun moved => quoteOf raw ++ moved ++ quoteOf raw) (map_slashes straight)

/-- The new word is still one word. -/
theorem rewrittenWord_solid (plain : Plain (parent targetPath))
    (spelled : Spelled (parent targetPath) (tree.named limit sourcePath raw)) :
    SolidWord (rewrittenWord (tree.volume limit) sourcePath targetPath raw).toList := by
  have quotes : ∀ c ∈ (quoteOf raw).toList, isSpace c = false ∧ c ≠ '#' := by
    intro c member
    have isQuote := quoteOf_quotes raw c member
    unfold LocalFlow.isQuote at isQuote
    rcases (Bool.or_eq_true _ _).mp isQuote with same | same
    · rw [of_decide_eq_true same]
      decide
    · rw [of_decide_eq_true same]
      decide
  rw [rewrittenWord_eq plain spelled, String.toList_append, String.toList_append]
  refine ⟨?_, fun c member => ?_⟩
  · exact List.append_ne_nil_of_left_ne_nil
      (List.append_ne_nil_of_right_ne_nil _ (Spelled.some_text plain named_plain spelled)) _
  · rcases List.mem_append.mp member with member | member
    · rcases List.mem_append.mp member with member | member
      · exact quotes c member
      · obtain ⟨unspaced, other⟩ := spelled.solid plain named_plain c member
        exact ⟨unspaced, fun same => other (same ▸ List.mem_cons_of_mem _ List.mem_cons_self)⟩
    · exact quotes c member

/-- Where the new word leads from the new place: up from the real directory, and down again. -/
theorem rewrittenWord_leads (plain : Plain (parent targetPath))
    (spelled : Spelled (parent targetPath) (tree.named limit sourcePath raw))
    (isPlace : parent place = real)
    (itself : left.resolve limit [] real = real) :
    (left.volume limit).included place
    (unquoted (rewrittenWord (tree.volume limit) sourcePath targetPath raw)) =
      (left.volume limit).resolve
      (real ++ wayTo (parent targetPath) (tree.named limit sourcePath raw)) ∧
    (left.volume limit).realpath (real ++ wayTo (parent targetPath) (tree.named limit sourcePath raw)) =
      left.resolve limit (ConfigTree.climbed (parent targetPath) real (tree.named limit sourcePath raw))
        (below (parent targetPath) (tree.named limit sourcePath raw)) := by
  constructor
  · have clean : embedsNull (relpath (tree.named limit sourcePath raw) (parent targetPath)) =
      false := by
      unfold embedsNull
      refine Bool.eq_false_iff.mpr fun null => ?_
      exact (spelled.solid plain named_plain _ (List.contains_iff_mem.mp null)).2
        (List.mem_cons_of_mem _ (List.mem_cons_of_mem _ List.mem_cons_self))
    unfold Volume.included
    rw [rewrittenWord_eq plain spelled, spelled.unquoted_word plain named_plain, clean,
      if_neg Bool.noConfusion, isPlace,
      join_relpath plain named_plain spelled.named]
  · change left.resolve limit [] _ = _
    rw [FileTree.resolve_append, itself, wayTo_eq, FileTree.resolve_append, FileTree.resolve_climbs]
    rfl

/-- What can be named is found again by its new word. -/
theorem ConfigTree.Nameable.leads
    (nameable : tree.Nameable (parent targetPath) real (tree.named limit sourcePath raw))
    (plain : Plain (parent targetPath)) (isPlace : parent place = real)
    (itself : left.resolve limit [] real = real)
    (links : ∀ spot text, left.entry spot = some (.link text) → tree.entry spot = some (.link text)) :
    (left.volume limit).included place
    (unquoted (rewrittenWord (tree.volume limit) sourcePath targetPath raw)) =
      .ok (tree.named limit sourcePath raw) := by
  obtain ⟨spelled, settled, aligned⟩ := nameable
  obtain ⟨isIncluded, isReal⟩ := rewrittenWord_leads plain spelled isPlace itself
  have settled : left.Settled (tree.named limit sourcePath raw) := settled.mono links
  have whole := shared_below (parent targetPath) (tree.named limit sourcePath raw)
  have back : left.resolve limit
    (ConfigTree.climbed (parent targetPath) real (tree.named limit sourcePath raw))
      (below (parent targetPath) (tree.named limit sourcePath raw)) =
        tree.named limit sourcePath raw := by
    rw [aligned, FileTree.resolve_settled, whole]
    · exact fun member => named_plain (whole ▸ List.mem_append_right _ member)
    · rwa [whole]
  rw [back] at isReal
  rw [isIncluded]
  refine volume_resolve_iff.mpr ⟨?_, isReal⟩
  change left.loops (limit + 1) [] ((left.volume limit).realpath _) = false
  rw [isReal]
  exact FileTree.loops_settled named_plain settled

/-- A word that leads back names a file that can be named, where links do not lead there by another
way. -/
theorem nameable_of_leads (spelled : Spelled (parent targetPath) (tree.named limit sourcePath raw))
    (settled : tree.Settled (tree.named limit sourcePath raw))
    (unlinked : tree.Settled
      (ConfigTree.climbed (parent targetPath) real (tree.named limit sourcePath raw) ++
      below (parent targetPath) (tree.named limit sourcePath raw)))
    (plain : Plain (parent targetPath)) (isPlace : parent place = real)
    (itself : left.resolve limit [] real = real)
    (links : ∀ spot text, left.entry spot = some (.link text) → tree.entry spot = some (.link text))
    (leads : (left.volume limit).included place
        (unquoted (rewrittenWord (tree.volume limit) sourcePath targetPath raw)) =
      .ok (tree.named limit sourcePath raw)) :
    tree.Nameable (parent targetPath) real (tree.named limit sourcePath raw) := by
  obtain ⟨isIncluded, isReal⟩ := rewrittenWord_leads plain spelled isPlace itself
  have whole := shared_below (parent targetPath) (tree.named limit sourcePath raw)
  rw [isIncluded] at leads
  obtain ⟨_, found⟩ := volume_resolve_iff.mp leads
  rw [isReal, FileTree.resolve_settled _ (unlinked.mono links)] at found
  · conv_rhs at found => rw [← whole]
    exact ⟨spelled, settled, List.append_cancel_right found⟩
  · exact fun member => named_plain (whole ▸ List.mem_append_right _ member)

/-- A directory that is what it is written as needs nothing more. -/
theorem climbed_self (written file : Path) :
    ConfigTree.climbed written written file = shared written file := by
  obtain ⟨isPrefix, _⟩ := shared_begins written file
  have short := isPrefix.length_le
  unfold ConfigTree.climbed above
  rw [Nat.sub_sub_self short]
  exact (List.prefix_iff_eq_take.mp isPrefix).symm

end Leading

end LocalFlow
