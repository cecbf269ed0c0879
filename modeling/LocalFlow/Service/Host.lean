import LocalFlow.Service.Recovering

/-! The boot of the host and the receipt of it that the controller keeps: which steps change them. -/
namespace LocalFlow
variable {config : Config} {s t : System} {act : Act} {recovery : Recovery}

/-- The boot id of the host and the content of `host-boot.json`. -/
def System.host (s : System) : String × Receipt := (s.boot, s.receipt)

@[simp] theorem host_crash : (s.crash config).host = s.host := rfl

@[simp] theorem host_put (id : TaskId) (slot : Slot) : (s.put id slot).host = s.host := rfl

@[simp] theorem host_closing (shutdown : Shutdown) : (s.closing shutdown).host = s.host := rfl

@[simp] theorem host_upkeep (cutoff : String) (faults : Option Nat) (wanted : Bool) :
    (s.upkeep config cutoff faults wanted).state.host = s.host := rfl

@[simp] theorem host_schedule (faults : Option Nat) :
    (s.schedule config faults).state.host = s.host := rfl

theorem host_tick (cutoff : String) (faults : Option Nat) :
    (s.tick config cutoff faults).host = s.host := by
  have turned : (s.turn config cutoff faults).state.host = s.host := by
    unfold System.turn
    dsimp only
    split
    · exact host_upkeep _ _ _
    · rw [host_schedule, host_upkeep]
  unfold System.tick
  dsimp only
  split
  · exact turned
  · exact turned

section Closing

/-- What `shutdown_all` writes: rows, coroutines and where it is suspended. -/
def Framed {α : Type} (part : System → α) : Prop :=
  ∀ (s : System) (db : Db) (cells : Dict TaskId Cell) (phase : Phase),
    part { s with db, cells, phase } = part s

variable {α : Type} {part : System → α} (framed : Framed part)
include framed

theorem frame_confirmNext (exited todo : List TaskId) : part (s.confirmNext exited todo) = part s := by
  induction todo generalizing exited with
  | nil => exact framed s _ _ _
  | cons head rest ih =>
    unfold System.confirmNext
    split
    · exact framed s _ _ _
    · exact ih _
    · exact framed s _ _ _

theorem frame_killNext (delivered todo : List TaskId) : part (s.killNext delivered todo) = part s := by
  unfold System.killNext
  split
  · exact frame_confirmNext framed _ _
  · split <;> exact framed s _ _ _

theorem frame_awaitExits (deadline : Seconds) : part (s.awaitExits deadline) = part s := by
  unfold System.awaitExits
  split
  · split <;> exact framed s _ _ _
  · unfold System.forceAll
    dsimp only
    split
    · exact framed s _ _ _
    · exact frame_killNext framed _ _

theorem frame_interruptAll (ids : List TaskId) : part (System.interruptAll ids s).1 = part s := by
  induction ids generalizing s with
  | nil => rfl
  | cons head rest ih =>
    unfold System.interruptAll
    dsimp only
    split
    · exact framed s _ _ _
    · rw [ih]
      exact framed s _ _ _

theorem frame_drain {fuel : Nat} {result : System × Bool}
    (drained : System.drain fuel s = some result) :
    part result.1 = part s := by
  induction fuel generalizing s with
  | zero => cases drained
  | succ fuel ih =>
    unfold System.drain at drained
    split at drained
    · cases drained
      rfl
    · dsimp only at drained
      split at drained
      · cases drained
        exact frame_interruptAll framed _
      · rw [ih drained, frame_interruptAll framed]

theorem frame_shutdownStep {shutdown : Shutdown} {a : ShutdownAct}
    (stepped : s.shutdownStep config shutdown a = some t) : part t = part s := by
  unfold System.shutdownStep at stepped
  split at stepped
  · split at stepped <;> cases stepped <;> exact framed s _ _ _
  · split at stepped
    · obtain ⟨⟨drained, raised⟩, draining, rfl⟩ := Option.map_eq_some_iff.mp stepped
      have same : part drained = part s := frame_drain framed draining
      dsimp only
      split
      · exact (framed drained _ _ _).trans same
      · rw [frame_awaitExits framed, same]
    · cases stepped
  · split at stepped <;> cases stepped
    exact frame_awaitExits framed _
  · split at stepped <;> cases stepped
    exact frame_killNext framed _ _
  · cases stepped
    exact frame_killNext framed _ _
  · cases stepped
    exact framed s _ _ _
  · obtain ⟨⟨slot, result⟩, _, rfl⟩ := Option.map_eq_some_iff.mp stepped
    dsimp only
    split
    · exact framed s _ _ _
    · rw [frame_confirmNext framed]
      exact framed s _ _ _
    · exact framed s _ _ _
  · cases stepped

omit framed in
theorem host_shutdownStep {shutdown : Shutdown} {a : ShutdownAct}
    (stepped : s.shutdownStep config shutdown a = some t) : t.host = s.host :=
  frame_shutdownStep (fun _ _ _ _ => rfl) stepped

end Closing

section Recoveries

theorem host_settleRecovered {id : TaskId} {state : TaskState} {fields : List Field}
    {override : Option TaskStatus} {extra : Option String} :
    (s.settleRecovered config recovery id state fields override extra).host = s.host := by
  unfold System.settleRecovered
  split <;> rfl

/-- The end of a recovery writes the receipt of the boot it has read, if it does not fail first. -/
theorem recoverFinish_host (fails : Bool) (cutoff : String) (faults : Option Nat) :
    (s.recoverFinish config recovery fails cutoff faults).boot = s.boot ∧
    ((s.recoverFinish config recovery fails cutoff faults).receipt =
        recovery.bootId.elim s.receipt .recorded ∨
      (s.recoverFinish config recovery fails cutoff faults).receipt = s.receipt ∧
      (s.recoverFinish config recovery fails cutoff faults).phase = .down) := by
  unfold System.recoverFinish
  split
  · exact ⟨rfl, .inr ⟨rfl, rfl⟩⟩
  · dsimp only
    split
    · exact ⟨rfl, .inl rfl⟩
    · exact ⟨rfl, .inl rfl⟩

theorem host_recoverStep {a : RecoverAct}
    (unfinished : ∀ fails cutoff faults, a ≠ .finish fails cutoff faults)
    (stepped : s.recoverStep config recovery a = some t) : t.host = s.host := by
  unfold System.recoverStep at stepped
  split at stepped
  · unfold System.recoverNext at stepped
    split at stepped
    · obtain ⟨key, _, rfl⟩ := Option.map_eq_some_iff.mp stepped
      rfl
    · dsimp only at stepped
      split at stepped
      · cases stepped
        exact host_settleRecovered
      · split at stepped <;> cases stepped <;> rfl
  · cases stepped
    rfl
  · cases stepped
    rfl
  · cases stepped
    unfold System.recoverResume
    split
    · rfl
    · rfl
    · split <;> exact host_settleRecovered
  · cases stepped
    unfold System.recoverEvaluated
    dsimp only
    split
    · split <;> rfl
    · rw [host_settleRecovered]
      split <;> rfl
  · exact absurd rfl (unfinished _ _ _)
  · cases stepped

end Recoveries

/-- Only a reboot changes the boot, and only the end of a recovery writes the receipt. -/
theorem host_step (stays : ∀ boot, act ≠ .reboot boot)
    (unfinished : ∀ fails cutoff faults, act ≠ .recover (.finish fails cutoff faults))
    (stepped : Step config s act t) : t.host = s.host := by
  unfold Step step at stepped
  split at stepped
  · obtain ⟨slot, _, rfl⟩ := Option.map_eq_some_iff.mp stepped
    rfl
  · unfold System.submit at stepped
    split at stepped
    · obtain ⟨db, _, rfl⟩ := Option.map_eq_some_iff.mp stepped
      rfl
    · cases stepped
  · unfold System.submitBatch at stepped
    split at stepped
    · obtain ⟨result, _, rfl⟩ := Option.map_eq_some_iff.mp stepped
      rfl
    · cases stepped
  · cases stepped
    rfl
  · cases stepped
    rfl
  · split at stepped <;> cases stepped
    rfl
  · split at stepped <;> cases stepped
    exact host_tick _ _
  · split at stepped <;> cases stepped
    rfl
  · cases stepped
    rfl
  · exact absurd rfl (stays _)
  · cases stepped
    rfl
  · exact host_recoverStep (fun _ _ _ same => unfinished _ _ _ (congrArg _ same)) stepped
  · cases stepped
    rfl
  · exact host_shutdownStep stepped
  · cases stepped

/-- `recover` ends only after its last page. -/
theorem finish_over {fails : Bool} {cutoff : String} {faults : Option Nat}
    (stepped : s.recoverStep config recovery (.finish fails cutoff faults) = some t) :
    recovery.Over ∧ t = s.recoverFinish config recovery fails cutoff faults := by
  unfold System.recoverStep at stepped
  split at stepped
  any_goals contradiction
  rename_i fails cutoff faults point isFinish
  cases isFinish
  split at stepped
  · rename_i last
    cases stepped
    obtain ⟨todo, tail⟩ := (Bool.and_eq_true _ _).mp last
    exact ⟨⟨point, List.isEmpty_iff.mp todo, Option.isNone_iff_eq_none.mp tail⟩, rfl⟩
  · cases stepped

theorem recoverFinish_phase (fails : Bool) (cutoff : String) (faults : Option Nat) :
    (s.recoverFinish config recovery fails cutoff faults).phase = .down ∨
    (s.recoverFinish config recovery fails cutoff faults).phase = .serving := by
  unfold System.recoverFinish
  split
  · exact .inl rfl
  · dsimp only
    split
    · exact .inl rfl
    · exact .inr rfl

/-- The receipt changes only when a recovery that could read the boot is over. -/
theorem receipt_step (stays : ∀ boot, act ≠ .reboot boot) (stepped : Step config s act t) :
    t.boot = s.boot ∧ (t.receipt = s.receipt ∨ ∃ recovery now, s.phase = .recovering recovery ∧
      recovery.Over ∧ recovery.bootId = some now ∧ t.receipt = .recorded now) := by
  by_cases unfinished : ∀ fails cutoff faults, act ≠ .recover (.finish fails cutoff faults)
  · have same := host_step stays unfinished stepped
    exact ⟨congrArg Prod.fst same, .inl (congrArg Prod.snd same)⟩
  · push Not at unfinished
    obtain ⟨fails, cutoff, faults, rfl⟩ := unfinished
    obtain ⟨recovery, phase, recovered⟩ := recover_step stepped
    obtain ⟨passed, rfl⟩ := finish_over recovered
    obtain ⟨boot, receipt | ⟨receipt, _⟩⟩ := @recoverFinish_host config s recovery fails cutoff faults
    · refine ⟨boot, ?_⟩
      rw [receipt]
      cases isBoot : recovery.bootId with
      | none => exact .inl rfl
      | some now => exact .inr ⟨recovery, now, phase, passed, isBoot, rfl⟩
    · exact ⟨boot, .inl receipt⟩

end LocalFlow
