import LocalFlow.Storage.History
import LocalFlow.Storage.Remapping
import Mathlib.Data.List.Dedup
import Mathlib.Data.List.MinMax

/-! `list_recent_configurations`: the configurations that the stored batches were submitted from, in
every history of submissions, retention and moves. -/
namespace LocalFlow
open Transition

/-! ## The list -/

structure RecentConfiguration where
  path : String
  lastUsedAt : String
  deriving DecidableEq

/-- `ORDER BY last_used_at DESC,configuration_path`. -/
def RecentConfiguration.Precedes (a b : RecentConfiguration) : Prop :=
  b.lastUsedAt < a.lastUsedAt ∨ a.lastUsedAt = b.lastUsedAt ∧ a.path ≤ b.path

instance : DecidableRel RecentConfiguration.Precedes := fun _ _ => inferInstanceAs (Decidable (_ ∨ _))

namespace Db
variable (db : Db)

/-- `MAX(created_at)` of the rows of a path. -/
def lastUsedAt (path : String) : String :=
  ((db.batches.filter (fun batch => batch.configurationPath = some path)).map
    BatchRecord.createdAt).maximum.unbotD ""

/-- `list_recent_configurations`. -/
def listRecentConfigurations : List RecentConfiguration :=
  ((db.batches.filterMap BatchRecord.configurationPath).dedup.map
    (fun path => ⟨path, db.lastUsedAt path⟩)).insertionSort
    RecentConfiguration.Precedes

end Db

section Listed
variable {db : Db} {path last : String} {recent : RecentConfiguration}

instance : Std.Total RecentConfiguration.Precedes where
  total a b := by
    obtain later | same | earlier := lt_trichotomy b.lastUsedAt a.lastUsedAt
    · exact .inl (.inl later)
    · exact (le_total a.path b.path).imp (fun low => .inr ⟨same.symm, low⟩)
        (fun high => .inr ⟨same, high⟩)
    · exact .inr (.inl earlier)

instance : IsTrans RecentConfiguration RecentConfiguration.Precedes where
  trans a b c := by
    rintro (later | ⟨same, low⟩) (later' | ⟨same', low'⟩)
    · exact .inl (later'.trans later)
    · exact .inl (same' ▸ later)
    · exact .inl (same ▸ later')
    · exact .inr ⟨same.trans same', low.trans low'⟩

/-- A path that a batch has was used last when its latest batch was created. -/
theorem lastUsedAt_iff (used : ∃ batch ∈ db.batches, batch.configurationPath = some path) :
    db.lastUsedAt path = last ↔
    (∃ batch ∈ db.batches, batch.configurationPath = some path ∧ batch.createdAt = last) ∧
      ∀ batch ∈ db.batches, batch.configurationPath = some path → batch.createdAt ≤ last := by
  let times := (db.batches.filter (fun batch => batch.configurationPath = some path)).map
    BatchRecord.createdAt
  have mem_times : ∀ time, time ∈ times ↔ ∃ batch ∈ db.batches,
    batch.configurationPath = some path ∧ batch.createdAt = time := by
    simp [times, and_assoc]
  have some_time : times ≠ [] := by
    obtain ⟨batch, member, isPath⟩ := used
    exact List.ne_nil_of_mem ((mem_times _).mpr ⟨batch, member, isPath, rfl⟩)
  obtain ⟨greatest, isGreatest⟩ :=
    WithBot.ne_bot_iff_exists.mp (List.maximum_ne_bot_of_ne_nil some_time)
  have isLast : db.lastUsedAt path = greatest := by
    show times.maximum.unbotD "" = greatest
    rw [← isGreatest]
    rfl
  have exactly := List.maximum_eq_coe_iff (l := times) (m := last)
  rw [mem_times] at exactly
  have above : (∀ time ∈ times, time ≤ last) ↔
      ∀ batch ∈ db.batches, batch.configurationPath = some path → batch.createdAt ≤ last := by
    simp only [mem_times]
    constructor
    · exact fun all batch member isPath => all _ ⟨batch, member, isPath, rfl⟩
    · rintro all _ ⟨batch, member, isPath, rfl⟩
      exact all batch member isPath
  rw [isLast, ← above, ← exactly, ← isGreatest, WithBot.coe_inj]

/-- What is listed: the paths that the batches have, with their latest uses. -/
theorem mem_recent : recent ∈ db.listRecentConfigurations ↔
    (∃ batch ∈ db.batches, batch.configurationPath = some recent.path ∧
      batch.createdAt = recent.lastUsedAt) ∧
      ∀ batch ∈ db.batches, batch.configurationPath = some recent.path →
        batch.createdAt ≤ recent.lastUsedAt := by
  obtain ⟨path, last⟩ := recent
  rw [Db.listRecentConfigurations, List.mem_insertionSort, List.mem_map]
  constructor
  · rintro ⟨_, isPath, same⟩
    cases same
    have used := List.mem_filterMap.mp (List.mem_dedup.mp isPath)
    exact (lastUsedAt_iff used).mp rfl
  · rintro ⟨⟨batch, member, isPath, isLast⟩, latest⟩
    refine ⟨path, List.mem_dedup.mpr (List.mem_filterMap.mpr ⟨batch, member, isPath⟩), ?_⟩
    rw [(lastUsedAt_iff ⟨batch, member, isPath⟩).mpr ⟨⟨batch, member, isPath, isLast⟩, latest⟩]

/-- The latest use comes first, and no path twice. -/
theorem recent_pairwise : db.listRecentConfigurations.Pairwise
    (fun a b => b.lastUsedAt < a.lastUsedAt ∨ a.lastUsedAt = b.lastUsedAt ∧ a.path < b.path) := by
  have sorted := List.pairwise_insertionSort RecentConfiguration.Precedes
    ((db.batches.filterMap BatchRecord.configurationPath).dedup.map
      (fun path => ⟨path, db.lastUsedAt path⟩))
  have distinct : (db.listRecentConfigurations.map RecentConfiguration.path).Nodup := by
    refine ((List.perm_insertionSort _ _).map _).nodup_iff.mpr ?_
    rw [List.map_map]
    exact (List.map_id _).symm ▸ List.nodup_dedup _
  refine (sorted.and (List.pairwise_map.mp distinct)).imp ?_
  rintro a b ⟨later | ⟨same, low⟩, apart⟩
  · exact .inl later
  · exact .inr ⟨same, lt_of_le_of_ne low apart⟩

end Listed

/-! ## Histories -/

/-- A statement of the store, or a move that the history of the configurations follows. -/
inductive HistoryAct where
  | store (act : StoreAct)
  | moved (source target : String)

namespace HistoryAct

/-- The steps of the database file. -/
def Step (s : Store) (act : HistoryAct) (t : Store) : Prop :=
  match act with
  | .store act => Store.Step s act t
  | .moved source target => t = { s with db := s.db.remapConfigurationHistory source target }

/-- The update selects no path that differs from the source in the case of letters. -/
def Distinguishes (s : Store) : HistoryAct → Prop
  | .store _ => True
  | .moved source target =>
    ∀ batch ∈ s.db.batches, ∀ path, batch.configurationPath = some path →
      Distinguished source target path

variable (move : String → String → String → String)

/-- Where a path is after an act, given what a move makes of one. -/
def follow : HistoryAct → String → String
  | .store _, path => path
  | .moved source target, path => move source target path

def followAll (acts : List HistoryAct) (path : String) : String :=
  acts.foldl (fun path act => act.follow move path) path

/-- One act of the history inserted the batch, which every state since then stores. Its path is the
one it was submitted with, after the moves since that act. -/
def Comes (acts : List HistoryAct) (t : Store) (batch : BatchRecord) : Prop :=
  ∃ early act later u v, acts = early ++ act :: later ∧ Run HistoryAct.Step Store.empty early u ∧
    act.Step u v ∧
    (∀ old ∈ u.db.batches, old.id ≠ batch.id) ∧
    { batch with configurationPath := Store.configurationPath batch.values } ∈ v.db.batches ∧
    Run (Guarded HistoryAct.Step (fun w _ => ∃ row ∈ w.db.batches, row.id = batch.id)) v later t ∧
    batch.configurationPath = (Store.configurationPath batch.values).map (followAll move later)

end HistoryAct

section Histories
variable {s t : Store} {batch : BatchRecord} {act : HistoryAct} {acts done : List HistoryAct}
variable {move : String → String → String → String}

/-- A submission adds batches under new ids, with the paths they are submitted with. -/
theorem batches_edits {request : Option (String × String)} (edits : Store.Edits request s t) :
    ∃ added, t.db.batches = s.db.batches ++ added ∧ ∀ batch ∈ added,
      batch.configurationPath = Store.configurationPath batch.values ∧ ∀ old ∈ s.db.batches,
        old.id ≠ batch.id := by
  induction edits with
  | refl => exact ⟨[], (List.append_nil _).symm, fun _ never => absurd never List.not_mem_nil⟩
  | tail _ edit ih =>
    cases edit with
    | task stored =>
      rw [stored.batches]
      exact ih
    | batch stored =>
      obtain ⟨added, isAdded, new⟩ := ih
      have fresh := stored.fresh
      rw [isAdded] at fresh
      rw [stored.batches, isAdded, List.append_assoc]
      refine ⟨_, rfl, fun batch member => ?_⟩
      obtain earlier | last := List.mem_append.mp member
      · exact new batch earlier
      · cases List.mem_singleton.mp last
        exact ⟨rfl, fun old isOld => fresh old (List.mem_append_left _ isOld)⟩
    | receipt taskId createdAt =>
      unfold Store.putReceipt
      split <;> exact ih
    | update revised =>
      obtain ⟨added, isAdded, new⟩ := ih
      exact ⟨added, revised.batches.trans isAdded, new⟩

theorem batches_withoutTasks {db : Db} {ids : List TaskId}
    (member : batch ∈ (db.withoutTasks ids).batches) :
    batch ∈ db.batches := (List.mem_filter.mp member).1

/-- A statement of the store keeps a batch as it is, drops it or inserts it. -/
theorem batches_apply (s : Store) (act : StoreAct) (member : batch ∈ (s.apply act).db.batches) :
    batch ∈ s.db.batches ∨ batch.configurationPath = Store.configurationPath batch.values ∧
      ∀ old ∈ s.db.batches, old.id ≠ batch.id := by
  obtain ⟨faults, clock, rfl⟩ | deletes | edits := s.apply_cases act
  · obtain same | ⟨_, _, migrated⟩ := Store.migrateLegacySeeds_cases clock faults s
    · rw [Store.apply, same] at member
      exact .inl member
    · exact .inl (migrated.batches ▸ member)
  · cases act with
    | purgeRetention tasksBefore eventsBefore idempotencyBefore =>
      obtain same | same := s.purged_cases tasksBefore eventsBefore idempotencyBefore
      · rw [Store.apply, same] at member
        exact .inl member
      rw [Store.apply, same] at member
      simp only [Db.retained] at member
      split at member
      · exact .inl member
      · exact .inl (batches_withoutTasks member)
    | purgeTerminalTask id =>
      simp only [Store.apply, Db.purgeTerminalTask_eq] at member
      cases found : s.db.getTask id with
      | none =>
        rw [found] at member
        exact .inl member
      | some row =>
        simp only [found, Option.map_some, Option.getD_some] at member
        split at member
        · exact .inl (batches_withoutTasks member)
        · exact .inl member
    | _ => cases deletes
  · obtain ⟨added, isAdded, new⟩ := batches_edits edits
    rw [isAdded] at member
    exact (List.mem_append.mp member).imp_right (new batch)

/-- A step takes the path of a batch along, or inserts the batch. -/
theorem path_step (before : Run HistoryAct.Step Store.empty done s) (step : act.Step s t)
    (moves : ∀ source target, act = .moved source target → ∀ batch ∈ s.db.batches, ∀ path,
      batch.configurationPath = some path → rewritten source target path = move source target path)
    (comes : ∀ batch ∈ s.db.batches, HistoryAct.Comes move done s batch)
    (member : batch ∈ t.db.batches) :
    HistoryAct.Comes move (done ++ [act]) t batch := by
  have along : ∀ old ∈ s.db.batches, batch = { old with configurationPath := batch.configurationPath } →
      batch.configurationPath = old.configurationPath.map (act.follow move) →
      HistoryAct.Comes move (done ++ [act]) t batch := by
    intro old isOld same isPath
    obtain ⟨early, insertion, later, u, v, rfl, isEarly, inserts, fresh, inserted, since,
      isLater⟩ := comes old isOld
    have sameId : batch.id = old.id := by rw [same]
    have sameValues : batch.values = old.values := by rw [same]
    have first : { batch with configurationPath := Store.configurationPath batch.values } =
        { old with configurationPath := Store.configurationPath old.values } := by rw [same]
    refine ⟨early, insertion, later ++
      [act], u, v, by simp, isEarly, inserts, sameId ▸ fresh, first ▸ inserted, ?_, ?_⟩
    · rw [sameId]
      exact since.snoc ⟨step, old, isOld, rfl⟩
    · rw [isPath, isLater, sameValues, Option.map_map]
      congr 1
      funext path
      simp [HistoryAct.followAll]
  cases act with
  | store act =>
    obtain old | ⟨isPath, fresh⟩ := batches_apply s act (step ▸ member)
    · refine along batch old rfl ?_
      cases batch.configurationPath <;> rfl
    · refine ⟨done, .store act, [], s, t, rfl, before, step, fresh, isPath ▸ member, .nil _, ?_⟩
      rw [isPath]
      cases Store.configurationPath batch.values <;> rfl
  | moved source target =>
    cases step
    rw [remapConfigurationHistory_eq] at member
    obtain ⟨old, isOld, rfl⟩ := List.mem_map.mp member
    refine along old isOld rfl ?_
    cases isPath : old.configurationPath with
    | none => rfl
    | some path => exact congrArg some (moves source target rfl old isOld path isPath)

theorem path_run {R : Store → HistoryAct → Store → Prop} (run : Run R s acts t)
    (steps : ∀ {s act t}, R s act t → act.Step s t ∧ ∀ source target, act = .moved source target →
      ∀ batch ∈ s.db.batches, ∀ path, batch.configurationPath = some path →
        rewritten source target path = move source target path)
    (before : Run HistoryAct.Step Store.empty done s)
    (comes : ∀ batch ∈ s.db.batches, HistoryAct.Comes move done s batch) :
    ∀ batch ∈ t.db.batches, HistoryAct.Comes move (done ++ acts) t batch := by
  induction run generalizing done with
  | nil => rwa [List.append_nil]
  | @cons s act t acts u step _ ih =>
    rw [List.append_cons]
    obtain ⟨isStep, moves⟩ := steps step
    exact ih (before.snoc isStep) (fun batch member => path_step before isStep moves comes member)

/-- In every history, each stored batch has the path it was submitted with, taken through the moves
since its insertion, and the recent configurations are the paths that the stored batches have, each
once with its latest use, the latest first. The moves take a path as they should where none selects
another path that differs in the case of letters only. -/
theorem recent_configurations (run : Run HistoryAct.Step Store.empty acts s) :
    (∀ batch ∈ s.db.batches, HistoryAct.Comes rewritten acts s batch) ∧
    (Run (Guarded HistoryAct.Step HistoryAct.Distinguishes) Store.empty acts s →
      ∀ batch ∈ s.db.batches, HistoryAct.Comes movedPath acts s batch) ∧
    (∀ recent, recent ∈ s.db.listRecentConfigurations ↔
      (∃ batch ∈ s.db.batches, batch.configurationPath = some recent.path ∧
        batch.createdAt = recent.lastUsedAt) ∧
        ∀ batch ∈ s.db.batches, batch.configurationPath = some recent.path →
          batch.createdAt ≤ recent.lastUsedAt) ∧
    s.db.listRecentConfigurations.Pairwise
      (fun a b => b.lastUsedAt < a.lastUsedAt ∨ a.lastUsedAt = b.lastUsedAt ∧ a.path < b.path) := by
  have nothing : ∀ {move}, ∀ batch ∈ Store.empty.db.batches,
    HistoryAct.Comes move [] Store.empty batch :=
    fun _ never => absurd never List.not_mem_nil
  refine ⟨?_, fun guarded => ?_, fun recent => mem_recent, recent_pairwise⟩
  · exact path_run run (fun step => ⟨step, fun _ _ _ _ _ _ _ => rfl⟩) (.nil _) nothing
  · refine path_run guarded (fun step => ⟨step.1, ?_⟩) (.nil _) nothing
    rintro source target rfl batch member path isPath
    exact (rewritten_iff source target path).mpr (step.2 batch member path isPath)

/-- A batch of one task, submitted from a configuration. -/
def submittedFrom (batchId createdAt path : String) : StoreAct := .batch none {
  now := createdAt
  createdAt
  batchId
  template := "demo"
  values := [("configuration_path", .str path)]
  tasks := [(batchId, (TaskCreate.keyed []).draft)]
  reservation := none
  clock := fun _ _ => 5 }

/-- Two configurations are used, and one of them again after it was moved. -/
theorem recent_configurations_moved : ∃ acts s, Run HistoryAct.Step Store.empty acts s ∧
    s.db.listRecentConfigurations = [⟨"new/a.yaml", "2026-03"⟩, ⟨"b.yaml", "2026-02"⟩] ∧
    ∀ batch ∈ s.db.batches, HistoryAct.Comes movedPath acts s batch := by
  let first := Store.empty.apply (submittedFrom "one" "2026-01" "team/a.yaml")
  let second := first.apply (submittedFrom "two" "2026-02" "b.yaml")
  let third : Store := { second with db := second.db.remapConfigurationHistory "team" "new" }
  have distinguished : second.db.batches.all (fun batch =>
      batch.configurationPath.all (fun path => decide (Distinguished "team" "new" path))) =
        true := by decide +kernel
  have guard : HistoryAct.Distinguishes second (.moved "team" "new") := by
    intro batch member path isPath
    have all := List.all_eq_true.mp distinguished batch member
    rw [isPath, Option.all_some] at all
    exact of_decide_eq_true all
  have run : Run (Guarded HistoryAct.Step HistoryAct.Distinguishes) Store.empty
      [.store (submittedFrom "one" "2026-01" "team/a.yaml"),
        .store (submittedFrom "two" "2026-02" "b.yaml"), .moved "team" "new",
        .store (submittedFrom "three" "2026-03" "new/a.yaml")]
          (third.apply (submittedFrom "three" "2026-03" "new/a.yaml")) :=
    .cons ⟨rfl, trivial⟩ (.cons ⟨rfl, trivial⟩ (.cons ⟨rfl, guard⟩ (.single ⟨rfl, trivial⟩)))
  refine ⟨_, _, run.unguarded, ?_, (recent_configurations run.unguarded).2.1 run⟩
  decide +kernel

end Histories

end LocalFlow
