import LocalFlow.Service.Sound

/-! What `shutdown_all` keeps track of: after the draining loop every task that has not ended is
stopping, and the forced stage has each of them on its list. -/
namespace LocalFlow
variable {s : System} {id : TaskId} {ids : List TaskId}

/-- The task has not ended yet. -/
def Db.Pends (db : Db) (id : TaskId) : Prop :=
  ∃ row, db.getTask id = some row ∧ row.state.terminal = false

/-- Every task that has not ended is stopping. -/
def Db.Stopping (db : Db) : Prop :=
  ∀ id row, db.getTask id = some row → row.state.terminal = false → row.state = .stopping

/-- Every task that has not ended is on a list of stored tasks, and is stopping. -/
structure Tallies (db : Db) (ids : List TaskId) : Prop where
  stopping : db.Stopping
  listed : ∀ id, db.Pends id → id ∈ ids
  stored : ∀ id ∈ ids, (db.getTask id).isSome = true

section Rows
variable {db next : Db}

/-- No update makes an ended task pend again. -/
theorem Updates.pends (updates : Updates db next) (pends : next.Pends id) : db.Pends id := by
  obtain ⟨new, found, unended⟩ := pends
  obtain ⟨old, stored, follows⟩ := updates.follows found
  refine ⟨old, stored, ?_⟩
  cases ended : old.state.terminal with
  | false => rfl
  | true =>
    rw [follows.terminal ended, ended] at unended
    cases unended

theorem Updates.stopping (updates : Updates db next) (stopping : db.Stopping) : next.Stopping := by
  intro id new found pending
  obtain ⟨old, stored, unended⟩ := updates.pends ⟨new, found, pending⟩
  obtain ⟨other, isOther, follows⟩ := updates.follows found
  cases stored.symm.trans isOther
  rw [stopping id old stored unended] at follows
  obtain same | ended := follows.stopping
  · exact same
  · rw [pending] at ended
    cases ended

theorem Tallies.update {target : TaskId} (tallies : Tallies db ids) (update : UpdateOf target db next) :
    Tallies next ids where
  stopping := update.updates.stopping tallies.stopping
  listed id pends := tallies.listed id (update.updates.pends pends)
  stored id member := by
    by_cases here : id = target
    · rw [here, update.stored, ← here]
      exact tallies.stored id member
    · rw [update.frame id here]
      exact tallies.stored id member

/-- A task that has ended needs no place on the list. -/
theorem Tallies.ended {first : TaskId} {row : TaskRecord} (tallies : Tallies db (first :: ids))
    (found : db.getTask first = some row) (ended : row.state.terminal = true) : Tallies db ids where
  stopping := tallies.stopping
  listed id pends := by
    obtain rfl | member := List.mem_cons.mp (tallies.listed id pends)
    · obtain ⟨other, isOther, unended⟩ := pends
      cases found.symm.trans isOther
      rw [ended] at unended
      cases unended
    · exact member
  stored id member := tallies.stored id (List.mem_cons_of_mem _ member)

theorem mem_unfinished {state : TaskState} :
    state ∈ System.unfinishedStates ↔ state.terminal = false := by
  cases state <;> decide

/-- `_all_tasks` of the unfinished states lists what has to be forced. -/
theorem tallies_unfinished (stopping : db.Stopping) :
    Tallies db ((db.allTasks System.unfinishedStates).map TaskRecord.id) where
  stopping := stopping
  listed id pends := by
    obtain ⟨row, found, pending⟩ := pends
    obtain ⟨member, rfl⟩ := Tasks.get?_mem found
    refine List.mem_map_of_mem ((Db.mem_allTasks db (by decide)).mpr ⟨member, ?_⟩)
    exact mem_unfinished.mpr pending
  stored id member := by
    obtain ⟨row, listed, rfl⟩ := List.mem_map.mp member
    have found := Tasks.get?_of_mem ((Db.mem_allTasks db (by decide)).mp listed).1
    exact Option.isSome_of_eq_some found

theorem pends_unfinished (empty : (db.allTasks System.unfinishedStates).isEmpty = true) :
    ¬ db.Pends id := by
  rintro ⟨row, found, pending⟩
  have listed : row ∈ db.allTasks System.unfinishedStates :=
    (Db.mem_allTasks db (by decide)).mpr ⟨(Tasks.get?_mem found).1, mem_unfinished.mpr pending⟩
  rw [List.isEmpty_iff.mp empty] at listed
  cases listed

end Rows

section Draining

/-- `interrupt` answers for a stored task that can be shown. -/
theorem interrupt_answers {slot : Slot} (moment : Moment) (sigint sigterm : Grace)
    (stored : (slot.db.getTask id).isSome = true) (shown : slot.db.Displays) :
    (slot.interrupt moment id sigint sigterm).2 = false := by
  have interrupts := interrupts_interrupt moment id slot sigint sigterm
  generalize slot.interrupt moment id sigint sigterm = result at interrupts
  obtain ⟨next, raised⟩ := result
  cases interrupts with
  | missing gone =>
    rw [gone] at stored
    cases stored
  | queued _ _ _ _ hidden =>
    cases raised with
    | false => rfl
    | true =>
      obtain ⟨r, found, dark⟩ := hidden rfl
      exact absurd (shown id r found) dark
  | stopping | advanced => rfl
  | hidden r _ found _ dark => exact absurd (shown id r found) dark

theorem interruptAll_answers (stored : ∀ id ∈ ids, (s.db.getTask id).isSome = true)
    (shown : s.db.Displays) : (System.interruptAll ids s).2 = false := by
  induction ids generalizing s with
  | nil => rfl
  | cons head rest ih =>
    have answers := @interrupt_answers head (s.slot head) (s.moment head) System.recoveryGrace.1
      System.recoveryGrace.2 (stored head List.mem_cons_self) shown
    have update := update_interrupt (s.moment head) head (s.slot head) System.recoveryGrace.1
      System.recoveryGrace.2
    unfold System.interruptAll
    dsimp only
    rw [if_neg (by rw [answers]; simp)]
    refine ih (fun id member => ?_) (update.updates.displays (fun _ never => never.elim) shown)
    by_cases here : id = head
    · rw [here]
      exact update.stored.trans (stored head List.mem_cons_self)
    · exact (congrArg Option.isSome (update.frame id here)).trans
        (stored id (List.mem_cons_of_mem _ member))

/-- The draining loop does not raise, and it ends with every pending task stopping. -/
theorem drain_answers {fuel : Nat} {result : System × Bool}
    (drained : System.drain fuel s = some result)
    (shown : s.db.Displays) : result.2 = false := by
  induction fuel generalizing s with
  | zero => cases drained
  | succ fuel ih =>
    unfold System.drain at drained
    split at drained
    · cases drained
      rfl
    · have answers : (System.interruptAll
          ((s.db.statePage System.interruptibleStates 10000 none).map TaskRecord.id) s).2 = false := by
        refine interruptAll_answers (fun id member => ?_) shown
        obtain ⟨row, listed, rfl⟩ := List.mem_map.mp member
        exact Option.isSome_of_eq_some (Db.mem_statePage (by decide) listed).1
      dsimp only at drained
      rw [if_neg (by rw [answers]; simp)] at drained
      exact ih drained ((System.updates_interruptAll _).displays (fun _ never => never.elim) shown)

theorem stopping_page (empty : s.db.statePage System.interruptibleStates 10000 none = []) :
    s.db.Stopping := by
  intro id row found pending
  by_contra other
  have listed : row ∈ s.db.inStates System.interruptibleStates := by
    rw [Db.inStates, List.mem_filter]
    refine ⟨(Tasks.get?_mem found).1, ?_⟩
    revert pending other
    cases row.state <;> simp [TaskState.terminal, System.interruptibleStates]
  have page := congrArg List.length empty
  rw [Db.statePage_eq s.db System.interruptibleStates (by decide), Keyset.length_page,
    Keyset.remaining_none, (Keyset.ordered_perm _).length_eq] at page
  have some_listed := List.length_pos_of_mem listed
  simp only [taskPageSize, List.length_nil] at page
  omega

theorem drain_stopping {fuel : Nat} {drained : System}
    (ran : System.drain fuel s = some (drained, false)) :
    drained.db.Stopping := by
  induction fuel generalizing s with
  | zero => cases ran
  | succ fuel ih =>
    unfold System.drain at ran
    split at ran
    · rename_i empty
      cases ran
      exact stopping_page empty
    · dsimp only at ran
      split at ran
      · cases ran
      · exact ih ran

end Draining
end LocalFlow
