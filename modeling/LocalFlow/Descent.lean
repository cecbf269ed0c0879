import LocalFlow.Minding

/-! The stages of a shutdown. The draining loop passes over every task, each stage has a rank that
no step raises, and a confirmation of an ended task comes to its end. -/
namespace LocalFlow
open Transition
variable {config : Config} {s t : System} {act : Act} {id : TaskId} {slot next : Slot} {moment : Moment}

section Draining

/-- A request to interrupt leaves nothing to interrupt. -/
theorem interrupt_passes (poised : Poised (slot.view id)) (displays : slot.db.Displays)
    (sigint sigterm : Grace) :
    ∀ r, (slot.interrupt moment id sigint sigterm).1.db.getTask id = some r →
      r.state ∉ System.interruptibleStates := by
  intro new isNew early
  have interrupts := interrupts_interrupt moment id slot sigint sigterm
  generalize (slot.interrupt moment id sigint sigterm).1 = next at interrupts isNew
  generalize (slot.interrupt moment id sigint sigterm).2 = raised at interrupts
  cases interrupts with
  | missing gone => cases gone.symm.trans isNew
  | queued fields cell row was =>
    obtain ⟨r, found, queued⟩ := was
    rw [found, isNew] at row
    cases row with
    | same _ why => exact absurd (displays id new found) (why new rfl (by simp [queued]))
    | moved => exact absurd early (by simp [System.interruptibleStates])
  | stopping r stop status _ _ found live free row =>
    have same := Option.some.inj (isNew.symm.trans row)
    rw [same] at early
    exact absurd early (by simp [System.interruptibleStates])
  | hidden r _ found _ dark => exact absurd (displays id r found) dark
  | advanced r found started busy row =>
    have same := Option.some.inj (isNew.symm.trans row)
    rw [same] at early
    have idle : slot.cell.sequence = none := (poised.early r found early).2
    have running := busy ((mem_interruptible.mp early).resolve_left started)
    rw [idle] at running
    cases running

theorem poised_interruptAll {ids : List TaskId} (poised : Poised (s.view id)) :
    Poised ((System.interruptAll ids s).1.view id) := poised_closes (closes_interruptAll ids) poised

theorem interruptAll_passes {head : TaskId} {rest : List TaskId} (poised : Poised (s.view head))
    (displays : s.db.Displays) :
    ∀ r, (System.interruptAll (head :: rest) s).1.db.getTask head = some r →
      r.state ∉ System.interruptibleStates := by
  have first : ∀ r, ((s.slot head).interrupt (s.moment head) head System.recoveryGrace.1
      System.recoveryGrace.2).1.db.getTask head = some r → r.state ∉ System.interruptibleStates :=
    interrupt_passes (show Poised ((s.slot head).view head) from poised) displays _ _
  unfold System.interruptAll
  dsimp only
  split
  · exact first
  · exact passed_updates (System.updates_interruptAll rest) first

/-- The tasks that can still be interrupted. -/
def Db.interruptible (db : Db) : List TaskId :=
  (db.inStates System.interruptibleStates).map TaskRecord.id

theorem mem_interruptibles {db : Db} : id ∈ db.interruptible ↔
    ∃ r, db.getTask id = some r ∧ r.state ∈ System.interruptibleStates := by
  unfold Db.interruptible Db.inStates
  simp only [List.mem_map, List.mem_filter, decide_eq_true_eq]
  constructor
  · rintro ⟨r, ⟨member, early⟩, rfl⟩
    exact ⟨r, Tasks.get?_of_mem member, early⟩
  · rintro ⟨r, found, early⟩
    obtain ⟨member, rfl⟩ := Tasks.get?_mem found
    exact ⟨r, ⟨member, early⟩, rfl⟩

theorem interruptible_nodup (db : Db) : db.interruptible.Nodup :=
  db.tasks.primaryKey.sublist (List.filter_sublist.map _)

/-- Each page of the draining loop leaves fewer tasks to interrupt, so the loop ends. -/
theorem drain_ends {fuel : Nat} (displays : s.db.Displays) (poised : ∀ id, Poised (s.view id))
    (enough : s.db.interruptible.length < fuel) : (System.drain fuel s).isSome = true := by
  induction fuel generalizing s with
  | zero => cases enough
  | succ fuel ih =>
    unfold System.drain
    generalize isPage : s.db.statePage System.interruptibleStates 10000 none = page
    cases page with
    | nil => rfl
    | cons head rest =>
      dsimp only
      split
      · rfl
      have stored : s.db.getTask head.id = some head ∧ head.state ∈ System.interruptibleStates :=
        Db.mem_statePage (by decide) (isPage ▸ List.mem_cons_self)
      have updates := System.updates_interruptAll (s := s) ((head :: rest).map TaskRecord.id)
      refine ih (updates.displays (fun _ never => never.elim) displays)
        (fun id => poised_interruptAll (poised id)) ?_
      have fewer : (System.interruptAll ((head :: rest).map TaskRecord.id) s).1.db.interruptible ⊆
          s.db.interruptible.erase head.id := by
        intro id member
        obtain ⟨new, found, early⟩ := mem_interruptibles.mp member
        obtain ⟨old, was, follows⟩ := updates.follows found
        refine (List.mem_erase_of_ne ?_).mpr
          (mem_interruptibles.mpr ⟨old, was, follows.interruptible early⟩)
        rintro rfl
        exact interruptAll_passes (poised head.id) displays new found early
      have bound := (List.subperm_of_subset (interruptible_nodup _) fewer).length_le
      have listed : head.id ∈ s.db.interruptible := mem_interruptibles.mpr ⟨head, stored⟩
      rw [List.length_erase_of_mem listed] at bound
      have some_left := List.length_pos_of_mem listed
      omega

theorem drain_possible (displays : s.db.Displays) (poised : ∀ id, Poised (s.view id)) :
    (System.drain (s.db.tasks.rows.length + 1) s).isSome = true := by
  refine drain_ends displays poised (Nat.lt_succ_of_le ?_)
  unfold Db.interruptible Db.inStates
  rw [List.length_map]
  exact List.length_filter_le _ _

end Draining

section Ranks

/-- How far a shutdown is from its end: its stage, and within the forced stage the tasks to come. -/
def Shutdown.rank : Shutdown → ℕ ×ₗ ℕ
  | .awaitingScheduler _ => toLex (6, 0)
  | .awaitingStarters _ => toLex (5, 0)
  | .waiting _ _ => toLex (4, 0)
  | .cancelling _ => toLex (3, 0)
  | .killing _ _ todo => toLex (2, todo.length)
  | .confirming _ _ todo _ => toLex (1, todo.length)
  | .returned | .raised => toLex (0, 0)

/-- What a shutdown keeps within one rank. -/
inductive Shutdown.Still : Shutdown → Shutdown → Prop where
  | same (shutdown : Shutdown) : Still shutdown shutdown
  | waiting (deadline : Seconds) (before after : Seconds) : Still (.waiting deadline before)
      (.waiting deadline after)
  | confirming (exited todo : List TaskId) (current : TaskId) (before after : Confirm) :
      Still (.confirming exited current todo before) (.confirming exited current todo after)

theorem Shutdown.Still.trans {a b c : Shutdown} (first : a.Still b) (second : b.Still c) :
    a.Still c := by
  cases first with
  | same => exact second
  | waiting =>
    cases second with
    | same => exact .waiting _ _ _
    | waiting => exact .waiting _ _ _
  | confirming =>
    cases second with
    | same => exact .confirming _ _ _ _ _
    | confirming => exact .confirming _ _ _ _ _

theorem Shutdown.Still.rank {a b : Shutdown} (still : a.Still b) : b.rank = a.rank := by
  cases still <;> rfl

theorem rank_stage {i j m n : Nat} (below : i < j) : toLex (i, m) < toLex (j, n) :=
  Prod.Lex.lt_iff.mpr (.inl below)

theorem rank_within {i m n : Nat} (below : m < n) : toLex (i, m) < toLex (i, n) :=
  Prod.Lex.lt_iff.mpr (.inr ⟨rfl, below⟩)

theorem rank_confirmNext (exited todo : List TaskId) :
    ∃ later, (s.confirmNext exited todo).phase = .closing later ∧
    later.rank < toLex (1, todo.length) := by
  induction todo generalizing exited with
  | nil => exact ⟨_, rfl, rank_stage Nat.zero_lt_one⟩
  | cons head rest ih =>
    unfold System.confirmNext
    split
    · exact ⟨_, rfl, rank_stage Nat.zero_lt_one⟩
    · obtain ⟨later, phase, below⟩ := ih (exited ++ [head])
      exact ⟨later, phase, below.trans (rank_within (Nat.lt_succ_self _))⟩
    · exact ⟨_, rfl, rank_within (Nat.lt_succ_self _)⟩

theorem rank_killNext (delivered todo : List TaskId) :
    ∃ later, (s.killNext delivered todo).phase = .closing later ∧
    later.rank < toLex (2, todo.length) := by
  unfold System.killNext
  split
  · obtain ⟨later, phase, below⟩ := @rank_confirmNext s [] delivered
    exact ⟨later, phase, below.trans (rank_stage Nat.one_lt_two)⟩
  · split
    · exact ⟨_, rfl, rank_stage Nat.two_pos⟩
    · exact ⟨_, rfl, rank_within (Nat.lt_succ_self _)⟩

theorem rank_awaitExits (deadline : Seconds) : ∃ later, (s.awaitExits deadline).phase = .closing later ∧
    (later.rank < toLex (4, 0) ∨ s.monotonic < deadline ∧ ∃ wake, later = .waiting deadline wake) := by
  unfold System.awaitExits
  split
  · rename_i early
    split
    · exact ⟨_, rfl, .inl (rank_stage (by decide))⟩
    · exact ⟨_, rfl, .inr ⟨early, _, rfl⟩⟩
  · unfold System.forceAll
    dsimp only
    split
    · exact ⟨_, rfl, .inl (rank_stage (Nat.lt_succ_self 3))⟩
    · obtain ⟨later, phase, below⟩ :=
        @rank_killNext s [] ((s.db.allTasks System.unfinishedStates).map TaskRecord.id)
      exact ⟨later, phase, .inl (below.trans (rank_stage (by decide)))⟩

/-- A step of `shutdown_all` lowers its rank, or it is a look at the tasks before the deadline, or a
confirmation that goes on. -/
inductive Shuts (config : Config) (s : System) (a : ShutdownAct) (shutdown later : Shutdown) :
    Prop where
  | lower (below : later.rank < shutdown.rank)
  | looked (deadline before after : Seconds) (early : s.monotonic < deadline)
      (isBefore : shutdown = .waiting deadline before)
      (isAfter : later = .waiting deadline after)
  | probed (exited todo : List TaskId) (current : TaskId) (before after : Confirm) (b : ConfirmAct)
      (next : Slot)
      (isAct : a = .confirm b) (isBefore : shutdown = .confirming exited current todo before)
      (isAfter : later = .confirming exited current todo after)
      (stepped : (s.slot current).confirmStep config.backend (s.moment current) current before b =
        some (next, .awaiting after))

theorem shuts_shutdownStep {shutdown : Shutdown} {a : ShutdownAct}
    (stepped : s.shutdownStep config shutdown a = some t) :
    ∃ later, t.phase = .closing later ∧ Shuts config s a shutdown later := by
  unfold System.shutdownStep at stepped
  split at stepped
  · split at stepped <;> cases stepped
    · exact ⟨_, rfl, .lower (rank_stage (by decide))⟩
    · exact ⟨_, rfl, .lower (rank_stage (by decide))⟩
    · exact ⟨_, rfl, .lower (rank_stage (by decide))⟩
  · split at stepped
    · obtain ⟨⟨drained, raised⟩, _, rfl⟩ := Option.map_eq_some_iff.mp stepped
      dsimp only
      split
      · exact ⟨_, rfl, .lower (rank_stage (by decide))⟩
      · obtain ⟨later, phase, below | ⟨_, wake, rfl⟩⟩ :=
          @rank_awaitExits drained (drained.monotonic + _)
        · exact ⟨later, phase, .lower (below.trans (rank_stage (by decide)))⟩
        · exact ⟨_, phase, .lower (rank_stage (by decide))⟩
    · cases stepped
  · rename_i deadline wake
    split at stepped <;> cases stepped
    obtain ⟨later, phase, below | ⟨early, after, isAfter⟩⟩ := @rank_awaitExits s deadline
    · exact ⟨later, phase, .lower below⟩
    · exact ⟨later, phase, .looked deadline wake after early rfl isAfter⟩
  · split at stepped <;> cases stepped
    obtain ⟨later, phase, below⟩ := @rank_killNext s [] _
    exact ⟨later, phase, .lower (below.trans (rank_stage (by decide)))⟩
  · cases stepped
    obtain ⟨later, phase, below⟩ := @rank_killNext s _ _
    exact ⟨later, phase, .lower below⟩
  · cases stepped
    exact ⟨_, rfl, .lower (rank_stage (by decide))⟩
  · rename_i exited current todo confirm b
    obtain ⟨⟨slot, result⟩, confirming, rfl⟩ := Option.map_eq_some_iff.mp stepped
    dsimp only
    split
    · rename_i after
      exact ⟨_, rfl, .probed exited todo current confirm after b slot rfl rfl rfl confirming⟩
    · obtain ⟨later, phase, below⟩ := @rank_confirmNext (s.put current slot) (exited ++ [current]) todo
      exact ⟨later, phase, .lower below⟩
    · exact ⟨_, rfl, .lower (rank_stage (by decide))⟩
  · cases stepped

theorem Shuts.still {a : ShutdownAct} {shutdown later : Shutdown}
    (shuts : Shuts config s a shutdown later) :
    later.rank < shutdown.rank ∨ shutdown.Still later := by
  cases shuts with
  | lower below => exact .inl below
  | looked deadline before after _ isBefore isAfter =>
    subst isBefore isAfter
    exact .inr (.waiting _ _ _)
  | probed exited todo current before after _ _ _ isBefore isAfter =>
    subst isBefore isAfter
    exact .inr (.confirming _ _ _ _ _)

/-- Only a look at the tasks and a confirmation leave a shutdown at its rank. -/
theorem Shuts.lowers {a : ShutdownAct} {shutdown later : Shutdown}
    (shuts : Shuts config s a shutdown later)
    (unwaiting : ∀ deadline wake, shutdown ≠ .waiting deadline wake)
    (unconfirming : ∀ exited current todo confirm, shutdown ≠ .confirming exited current todo confirm) :
    later.rank < shutdown.rank := by
  cases shuts with
  | lower below => exact below
  | looked deadline before _ _ isBefore => exact absurd isBefore (unwaiting deadline before)
  | probed exited todo current before _ _ _ _ isBefore =>
    exact absurd isBefore (unconfirming exited current todo before)

/-- The tasks that have been sent their SIGKILL and are still to be confirmed. -/
def Shutdown.struck : Shutdown → List TaskId
  | .killing delivered _ _ => delivered
  | .confirming _ current todo _ => current :: todo
  | _ => []

theorem struck_confirmNext (exited : List TaskId) {todo : List TaskId} {later : Shutdown}
    (phase : (s.confirmNext exited todo).phase = .closing later) : later.struck ⊆ todo := by
  induction todo generalizing exited with
  | nil =>
    cases phase
    exact List.Subset.refl _
  | cons head rest ih =>
    unfold System.confirmNext at phase
    split at phase
    · cases phase
      exact List.nil_subset _
    · exact List.Subset.trans (ih _ phase) (List.subset_cons_self _ _)
    · cases phase
      exact List.Subset.refl _

theorem struck_killNext {delivered todo : List TaskId} {later : Shutdown}
    (phase : (s.killNext delivered todo).phase = .closing later) : later.struck ⊆ delivered := by
  unfold System.killNext at phase
  split at phase
  · exact struck_confirmNext [] phase
  · split at phase <;> cases phase
    · exact List.nil_subset _
    · exact List.Subset.refl _

theorem struck_awaitExits {deadline : Seconds} {later : Shutdown}
    (phase : (s.awaitExits deadline).phase = .closing later) : later.struck ⊆ [] := by
  unfold System.awaitExits at phase
  split at phase
  · split at phase <;> cases phase <;> exact List.Subset.refl _
  · unfold System.forceAll at phase
    dsimp only at phase
    split at phase
    · cases phase
      exact List.Subset.refl _
    · exact struck_killNext phase

/-- A task that is struck was so before, or its SIGKILL has just been sent. -/
theorem struck_shutdownStep {shutdown later : Shutdown} {a : ShutdownAct}
    (stepped : s.shutdownStep config shutdown a = some t) (phase : t.phase = .closing later)
    (member : id ∈ later.struck) :
    id ∈ shutdown.struck ∨ a = .killed ∧ ∃ delivered todo, shutdown = .killing delivered id todo := by
  unfold System.shutdownStep at stepped
  split at stepped
  · split at stepped <;> cases stepped <;> cases phase <;> cases member
  · split at stepped
    · obtain ⟨⟨drained, raised⟩, _, rfl⟩ := Option.map_eq_some_iff.mp stepped
      dsimp only at phase
      split at phase
      · cases phase
        cases member
      · cases struck_awaitExits phase member
    · cases stepped
  · split at stepped <;> cases stepped
    cases struck_awaitExits phase member
  · split at stepped <;> cases stepped
    cases struck_killNext phase member
  · rename_i delivered current todo
    cases stepped
    obtain before | here := List.mem_append.mp (struck_killNext phase member)
    · exact .inl before
    · cases List.mem_singleton.mp here
      exact .inr ⟨rfl, delivered, todo, rfl⟩
  · cases stepped
    cases phase
    cases member
  · rename_i exited current todo confirm b
    obtain ⟨⟨slot, result⟩, _, rfl⟩ := Option.map_eq_some_iff.mp stepped
    dsimp only at phase
    split at phase
    · cases phase
      exact .inl member
    · exact .inl (List.mem_cons_of_mem _ (struck_confirmNext _ phase member))
    · cases phase
      cases member
  · cases stepped

end Ranks

section Cancels

/-- A stop that no longer presses and has not ended has been cancelled. -/
theorem cancelled_of_quiet (quiet : (s.cells.get id).pressed = false)
    (busy : s.sequenceOver id ≠ true) :
    ∃ entered advance, (s.cells.get id).sequence = some ⟨.cancelled entered, advance⟩ := by
  unfold Cell.pressed at quiet
  unfold System.sequenceOver at busy
  cases isSequence : (s.cells.get id).sequence with
  | none =>
    rw [isSequence] at busy
    exact absurd rfl busy
  | some sequence =>
    rw [isSequence] at quiet busy
    obtain ⟨point, advance⟩ := sequence
    cases point with
    | cancelled entered => exact ⟨entered, advance, rfl⟩
    | ended => exact absurd rfl busy
    | _ => cases quiet

/-- A stop that has been cancelled can end, and does so with its next step. -/
theorem stopStep_cancelled {entered advance : Bool}
    (isSequence : slot.cell.sequence = some ⟨.cancelled entered, advance⟩)
    (a : StopAct) : slot.taskStep config moment id (.stop a) =
      if a = .cancelDone then
        some (slot.withSequence (if entered then none else some ⟨.ended, false⟩)) else none := by
  unfold Slot.taskStep
  dsimp only
  rw [isSequence]
  cases a <;> rfl

theorem over_cancelled {entered : Bool}
    (ended : (s.cells.get id).sequence = if entered then none else some ⟨.ended, false⟩) :
    s.sequenceOver id = true := by
  unfold System.sequenceOver
  rw [ended]
  cases entered <;> rfl

end Cancels

section Confirmations

/-- How far a confirmation is from its end once its task has ended. -/
def Confirm.rank : Confirm → Nat
  | .sleeping _ _ => 0
  | .killing _ => 1
  | .probing _ _ (some _) => 2
  | .probing _ _ none => 3

theorem confirmLoop_ended {row : TaskRecord} (found : slot.db.getTask id = some row)
    (ended : row.state.terminal = true)
    (attempt : Nat) : slot.confirmLoop moment id attempt = .returned := by
  obtain ⟨_, returned⟩ | ⟨pending, _⟩ := @looked_confirmLoop id slot moment row found attempt
  · exact returned
  · cases ended.symm.trans pending

/-- Once the task has ended every step of its confirmation brings it closer to its end. -/
theorem confirmStep_rank {row : TaskRecord} {confirm after : Confirm} {a : ConfirmAct}
    (found : slot.db.getTask id = some row) (ended : row.state.terminal = true)
    (stepped : slot.confirmStep config.backend moment id confirm a = some (next, .awaiting after)) :
    after.rank < confirm.rank := by
  unfold Slot.confirmStep at stepped
  split at stepped
  · rename_i attempt wake
    have returned : slot.confirmWake id attempt = .returned := by
      unfold Slot.confirmWake
      rw [found]
      exact if_pos ended
    rw [returned] at stepped
    split at stepped <;> cases stepped
  · cases stepped
    exact Nat.lt_succ_self _
  · cases stepped
    simp [Confirm.rank]
  · rename_i attempt current running
    have result := Option.some.inj stepped
    unfold Slot.confirmResume at result
    split at result
    · cases result
      exact Nat.lt_succ_self _
    · cases result
      exact Nat.lt_succ_self _
    · split at result
      · cases result
        exact Nat.lt_succ_self _
      · have outcome := congrArg Prod.snd result
        dsimp only at outcome
        split at outcome <;> cases outcome
  · rename_i attempt
    rw [confirmLoop_ended found ended] at stepped
    cases stepped
  · cases stepped
  · cases stepped

/-- A confirmation that is not asleep can go on. -/
theorem confirmStep_able (confirm : Confirm)
    (awake : ∀ attempt wake, confirm = .sleeping attempt wake → wake ≤ moment.monotonic) :
    ∃ a result, slot.confirmStep config.backend moment id confirm a = some result := by
  cases confirm with
  | sleeping attempt wake => exact ⟨.wake, _, if_pos (awake attempt wake rfl)⟩
  | probing attempt current answer =>
    cases answer with
    | none => exact ⟨.query, _, rfl⟩
    | some => exact ⟨.resume, _, rfl⟩
  | killing => exact ⟨.killed, _, rfl⟩

end Confirmations

end LocalFlow
