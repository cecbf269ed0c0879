import LocalFlow.Library.Wildcard
import LocalFlow.Storage.List

/-! `remap_configuration_history`: the configuration paths of stored batches after a move. -/
namespace LocalFlow
open Wildcard

/-- The tokens of `LIKE ? ESCAPE '\'`. An escape that ends the pattern is an error. -/
def likeTokens : List Char → Option (List (Token Char))
  | [] => some []
  | '%' :: rest => (likeTokens rest).map (.many :: ·)
  | '_' :: rest => (likeTokens rest).map (.one :: ·)
  | '\\' :: [] => none
  | '\\' :: letter :: rest => (likeTokens rest).map (.literal letter :: ·)
  | letter :: rest => (likeTokens rest).map (.literal letter :: ·)

/-- `text LIKE pattern ESCAPE '\'`. -/
def like (pattern text : String) : Bool :=
  (likeTokens pattern.toList).any (fun tokens => fits (folded likeChar) tokens text.toList)

/-- `text.replace(old, new)` for a single character. -/
def replaceChar (old : Char) (new : List Char) (text : List Char) : List Char :=
  text.flatMap (fun letter => if letter = old then new else [letter])

/-- `source.replace("\\", "\\\\").replace("%", "\\%").replace("_", "\\_")`. -/
def likeEscaped (source : List Char) : List Char :=
  replaceChar '_' ['\\', '_'] (replaceChar '%' ['\\', '%'] (replaceChar '\\' ['\\', '\\'] source))

/-- `substr(text, start)`. Characters count from one. -/
def substr (text : String) (start : Nat) : String := String.ofList (text.toList.drop (start - 1))

/-- The rows the update selects. -/
def remaps (source path : String) : Bool :=
  path = source || like (String.ofList (likeEscaped source.toList ++ ['/', '%'])) path

/-- `target || substr(path, len(source) + 1)`. -/
def remapped (source target path : String) : String := target ++ substr path (source.length + 1)

namespace Db

def remapConfigurationHistory (db : Db) (source target : String) : Db :=
  { db with
    batches := db.batches.map (fun batch =>
      if batch.configurationPath.any (remaps source) then
        { batch with configurationPath := batch.configurationPath.map (remapped source target) }
      else batch) }

end Db

/-- Wildcards and escapes get an escape, other letters stay. -/
theorem likeEscaped_cons (letter : Char) (source : List Char) : likeEscaped (letter :: source) =
    (if letter = '\\' ∨ letter = '%' ∨ letter = '_' then ['\\', letter] else [letter]) ++
      likeEscaped source := by
  by_cases slash : letter = '\\'
  · subst slash
    rfl
  by_cases percent : letter = '%'
  · subst percent
    rfl
  by_cases line : letter = '_'
  · subst line
    rfl
  rw [if_neg (not_or.mpr ⟨slash, not_or.mpr ⟨percent, line⟩⟩)]
  simp only [likeEscaped, replaceChar, List.flatMap_cons, if_neg slash, if_neg percent,
    if_neg line, List.singleton_append]

theorem likeTokens_plain {letter : Char} (slash : letter ≠ '\\') (percent : letter ≠ '%')
    (line : letter ≠ '_')
    (rest : List Char) :
    likeTokens (letter :: rest) = (likeTokens rest).map (.literal letter :: ·) := by
  rw [likeTokens]
  · exact percent
  · exact line
  · exact fun same _ => slash same
  · exact fun _ _ same _ => slash same

/-- An escaped text reads as its own letters. -/
theorem likeTokens_escaped (source rest : List Char) :
    likeTokens (likeEscaped source ++ rest) = (likeTokens rest).map (source.map .literal ++ ·) := by
  induction source with
  | nil =>
    show likeTokens rest = _
    cases likeTokens rest <;> rfl
  | cons letter source ih =>
    have step : likeTokens (likeEscaped (letter :: source) ++ rest) =
        (likeTokens (likeEscaped source ++ rest)).map (.literal letter :: ·) := by
      rw [likeEscaped_cons]
      split
      · rfl
      · rename_i other
        obtain ⟨slash, percent, line⟩ := (not_or.mp other).imp_right not_or.mp
        exact likeTokens_plain slash percent line _
    rw [step, ih, Option.map_map]
    rfl

/-- The pattern of `list_tasks`, which `likeContains` abbreviates. -/
theorem likeContains_like (needle text : String) :
    likeContains needle text =
      like (String.ofList ('%' :: (likeEscaped needle.toList ++ ['%']))) text := by
  have tokens : likeTokens ('%' :: (likeEscaped needle.toList ++ ['%'])) =
      some (.many :: (needle.toList.map .literal ++ [.many])) := by
    rw [likeTokens, likeTokens_escaped]
    rfl
  rw [Bool.eq_iff_iff, likeContains, decide_eq_true_eq, like, String.toList_ofList, tokens,
    Option.any_some]
  exact (fits_within likeChar).symm

/-- A path below `source`, up to the case of ASCII letters. -/
def BelowFolded (source path : String) : Prop :=
  (source.toList ++ ['/']).map likeChar <+: path.toList.map likeChar

/-- A path below `source`, character by character. -/
def Below (source path : String) : Prop := source.toList ++ ['/'] <+: path.toList

instance (source path : String) : Decidable (BelowFolded source path) :=
  inferInstanceAs (Decidable (_ <+: _))

instance (source path : String) : Decidable (Below source path) := inferInstanceAs (Decidable (_ <+: _))

theorem Below.belowFolded {source path : String} (below : Below source path) :
    BelowFolded source path :=
  below.map likeChar

/-- The update selects what lies below the source up to case. -/
theorem remaps_iff (source path : String) :
    remaps source path = true ↔ path = source ∨ BelowFolded source path := by
  have tokens : likeTokens (likeEscaped source.toList ++ ['/', '%']) =
      some ((source.toList ++ ['/']).map .literal ++ [.many]) := by
    rw [likeTokens_escaped, List.map_append, List.append_assoc]
    rfl
  rw [remaps, Bool.or_eq_true, decide_eq_true_eq, like, String.toList_ofList, tokens, Option.any_some,
    fits_start likeChar]
  rfl

/-- Where a path lies once `source` is called `target`. -/
def movedPath (source target path : String) : String :=
  if path = source ∨ Below source path then
    String.ofList (target.toList ++ path.toList.drop source.toList.length)
  else path

/-- The history after a move. -/
def Db.movedHistory (db : Db) (source target : String) : Db :=
  { db with
    batches := db.batches.map (fun batch =>
      { batch with configurationPath := batch.configurationPath.map (movedPath source target) }) }

theorem remapped_eq (source target path : String) :
    remapped source target path = String.ofList
    (target.toList ++ path.toList.drop source.toList.length) := by
  rw [remapped, substr, Nat.add_sub_cancel]
  apply String.toList_inj.mp
  rw [String.toList_append, String.toList_ofList, String.toList_ofList, String.length_toList]

/-- The update on one path. -/
def rewritten (source target path : String) : String :=
  if remaps source path then remapped source target path else path

theorem remapConfigurationHistory_eq (db : Db) (source target : String) :
    db.remapConfigurationHistory source target =
      { db with
        batches := db.batches.map (fun batch =>
          { batch with
            configurationPath := batch.configurationPath.map (rewritten source target) }) } := by
  rw [Db.remapConfigurationHistory]
  congr 1
  apply List.map_congr_left
  intro batch _
  obtain ⟨id, template, values, createdAt, path⟩ := batch
  cases path with
  | none => rfl
  | some path =>
    simp only [Option.any_some, Option.map_some, rewritten]
    split <;> rfl

/-- What the update selects beyond the source's own paths it must give back unchanged. -/
def Distinguished (source target path : String) : Prop :=
  BelowFolded source path →
    Below source path ∨ target.toList.length = source.toList.length ∧ target.toList <+: path.toList

instance (source target path : String) : Decidable (Distinguished source target path) :=
  inferInstanceAs (Decidable (_ → _))

/-- Putting a text in place of a shorter beginning changes nothing if it is that beginning. -/
theorem replaced_iff {target path : List Char} {count : Nat} (short : count ≤ path.length) :
    target ++ path.drop count = path ↔ target.length = count ∧ target <+: path := by
  constructor
  · intro same
    have lengths := congrArg List.length same
    rw [List.length_append, List.length_drop] at lengths
    exact ⟨by omega, _, same⟩
  · rintro ⟨rfl, rest, rfl⟩
    rw [List.drop_left]

theorem rewritten_iff (source target path : String) :
    rewritten source target path = movedPath source target path ↔ Distinguished source target path := by
  rw [rewritten, movedPath, remapped_eq, Distinguished]
  simp only [remaps_iff]
  by_cases same : path = source
  · subst same
    have longer : ¬ BelowFolded path path := by
      intro below
      have := below.length_le
      rw [List.length_map, List.length_map, List.length_append, List.length_singleton] at this
      omega
    simp [longer]
  by_cases folded : BelowFolded source path
  · have short : source.toList.length ≤ path.toList.length := by
      have := folded.length_le
      rw [List.length_map, List.length_map, List.length_append] at this
      omega
    by_cases below : Below source path
    · simp [folded, below]
    · rw [if_pos (.inr folded), if_neg (not_or.mpr ⟨same, below⟩), ← String.toList_inj,
        String.toList_ofList,
        replaced_iff short]
      constructor
      · exact fun back _ => .inr back
      · exact fun given => (given folded).resolve_left below
  · have below : ¬ Below source path := fun below => folded below.belowFolded
    simp [same, folded, below]

/-- The history follows a move exactly when case folding selects nothing else. -/
theorem remapConfigurationHistory_exact_iff (db : Db) (source target : String) :
    db.remapConfigurationHistory source target = db.movedHistory source target ↔
      ∀ batch ∈ db.batches, ∀ path, batch.configurationPath = some path →
        Distinguished source target path := by
  rw [remapConfigurationHistory_eq, Db.movedHistory]
  simp only [Db.mk.injEq, true_and, and_true, List.map_inj_left, BatchRecord.mk.injEq]
  refine forall₂_congr (fun batch _ => ?_)
  cases batch.configurationPath with
  | none => simp
  | some path =>
    simp only [Option.map_some, Option.some.injEq, forall_eq', rewritten_iff]

/-- A batch submitted from `Team/a.yaml` follows a move of `team`. -/
theorem remap_folds_case :
    ¬ ∀ (db : Db) (source target : String),
      db.remapConfigurationHistory source target = db.movedHistory source target := by
  intro always
  let db : Db := { Db.empty with batches := [⟨"b", "verification", [], "t", some "Team/a.yaml"⟩] }
  have rows := congrArg (fun db => db.batches.map BatchRecord.configurationPath)
    (always db "team" "new")
  exact absurd rows (by decide)

end LocalFlow
