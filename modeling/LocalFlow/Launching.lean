import LocalFlow.Service.Sound

/-! A task is launched at most once, whatever fails in between: its starter begins once, at most one
process comes of it, and a task that was never admitted is never launched. -/
namespace LocalFlow
open Transition
variable {config : Config} {s t : System} {act : Act} {acts : List Act} {id : TaskId}

/-- The starter of a task goes on to `executor.start`. -/
def Act.launches (id : TaskId) : Act → Bool
  | .task target .startBegin => target = id
  | _ => false

/-- A launch of a task is accepted. -/
def Act.accepts (id : TaskId) : Act → Bool
  | .task target .accept => target = id
  | _ => false

/-- `_schedule` has admitted the task. -/
def Db.Admitted (db : Db) (id : TaskId) : Prop := .starting ∈ db.written id

instance (db : Db) : Decidable (db.Admitted id) := inferInstanceAs (Decidable (_ ∈ _))

/-- The starter is created and has not begun. -/
def Cell.unbegun (cell : Cell) : Bool :=
  match cell.starter with
  | some .created => true
  | _ => false

/-- How many launches may still come. -/
def System.launchesLeft (s : System) (id : TaskId) : Nat :=
  if s.db.Admitted id then (s.cells.get id).unbegun.toNat else 1

/-- A launch is under way. -/
def System.pending (s : System) (id : TaskId) : Nat := (s.cells.get id).tree.pending.toNat

/-- What a step does to the launch of a task. -/
inductive Launched (s : System) (act : Act) (t : System) (id : TaskId) : Prop where
  | rest (quiet : act.launches id = false) (unbegun : (t.cells.get id).unbegun = true →
      (s.cells.get id).unbegun = true)
      (pending : (t.cells.get id).tree.pending.toNat + (act.accepts id).toNat ≤
        (s.cells.get id).tree.pending.toNat)
  | admitted (quiet : act.launches id = false) (silent : act.accepts id = false) (row new : TaskRecord)
      (stored : s.db.getTask id = some row) (queued : row.state = .queued)
      (found : t.db.getTask id = some new) (starting : new.state = .starting)
      (tree : (t.cells.get id).tree = (s.cells.get id).tree)
  | begun (launches : act.launches id = true) (silent : act.accepts id = false)
      (before : (s.cells.get id).unbegun = true) (after : (t.cells.get id).unbegun = false)

section Steps

theorem pending_collect (backend : Backend) (tree : Tree) :
    (tree.collect backend).pending = tree.pending := by
  cases tree <;> cases backend <;> rfl

theorem Launched.of_cell (quiet : act.launches id = false) (silent : act.accepts id = false)
    (starter : (t.cells.get id).starter = (s.cells.get id).starter ∨ (t.cells.get id).starter = none)
    (pending : (t.cells.get id).tree.pending = true → (s.cells.get id).tree.pending = true) :
    Launched s act t id := by
  refine .rest quiet (fun unbegun => ?_) ?_
  · obtain same | gone := starter
    · simpa only [Cell.unbegun, same] using unbegun
    · simp [Cell.unbegun, gone] at unbegun
  · cases after : (t.cells.get id).tree.pending with
    | false => simp [silent]
    | true => simp [silent, pending after]

/-- The coroutines and the process of the task itself. -/
theorem launched_own {a : TaskAct} {slot : Slot} {moment : Moment}
    (stepped : (s.slot id).taskStep config moment id a = some slot)
    (cell : t.cells.get id = slot.cell) :
    Launched s (.task id a) t id := by
  have before : (s.slot id).cell = s.cells.get id := rfl
  cases steps_taskStep stepped with
  | tree tree moved =>
    rw [Slot.cell_withTree] at cell
    have starter : (t.cells.get id).starter = (s.cells.get id).starter := by rw [cell, before]
    cases a <;> simp only [Slot.treeStep, Option.ite_none_right_eq_some, reduceCtorEq] at moved
    case accept =>
      obtain ⟨requested, isTree⟩ := moved
      cases isTree
      rw [before] at requested
      refine .rest rfl (fun unbegun => by simpa only [Cell.unbegun, starter] using unbegun) ?_
      simp [cell, requested, Tree.pending, Act.accepts]
    all_goals
      obtain ⟨_, isTree⟩ := moved
      cases isTree
      exact .of_cell rfl rfl (.inl starter) (fun pending => by rw [cell] at pending; cases pending)
  | start stepped =>
    unfold Slot.startStep at stepped
    split at stepped
    · rename_i created _
      cases stepped
      refine .begun (by simp [Act.launches]) rfl (by rw [Cell.unbegun, ← before, created]) ?_
      rw [cell, Slot.startBegin]
      split <;> rfl
    · split at stepped <;> cases stepped
      refine .of_cell rfl rfl (.inr ?_) (fun pending => ?_)
      · rw [cell, Slot.startReturn]
        split <;> rfl
      · rw [cell, Slot.startReturn] at pending
        revert pending
        split <;> exact fun pending => pending
    · split at stepped <;> cases stepped
      refine .of_cell rfl rfl (.inr (by rw [cell]; rfl)) (fun pending => ?_)
      rw [cell] at pending
      have collected : ((s.cells.get id).tree.collect config.backend).pending = true := pending
      rwa [pending_collect] at collected
    · cases stepped
  | wait stepped =>
    obtain ⟨waiter, tree, isCell, same⟩ := (waited_waitStep stepped).cell
    have calls : a ≠ .startBegin ∧ a ≠ .accept := by
      constructor <;> rintro rfl <;> simp [Slot.waitStep] at stepped
    have quiet : (Act.task id a).launches id = false ∧ (Act.task id a).accepts id = false := by
      cases a <;> simp_all [Act.launches, Act.accepts]
    refine .of_cell quiet.1 quiet.2 (.inl (by rw [cell, isCell, before])) (fun pending => ?_)
    rw [cell, isCell, before] at pending
    obtain rfl | rfl := same
    · exact pending
    · exact (pending_collect _ _).symm.trans pending
  | stop sequence isSequence stepped =>
    obtain ⟨_, isCell⟩ := (stops_stopStep stepped).cell
    refine .of_cell rfl rfl (.inl (by rw [cell, isCell, before])) (fun pending => ?_)
    rw [cell, isCell] at pending
    exact pending

theorem Kept.starter (kept : Kept config s t id) : (t.cells.get id).starter = (s.cells.get id).starter ∧
    (t.cells.get id).tree.pending = (s.cells.get id).tree.pending := by
  cases kept with
  | same _ cell => simp [cell]
  | ended _ _ cell =>
    obtain cell | cell := cell <;> simp [cell, Cell.unlink]

theorem launched_step (stepped : Step config s act t) (id : TaskId) : Launched s act t id := by
  have sequenced : act.launches id = false → act.accepts id = false →
      (∃ sequence, t.cells.get id = { s.cells.get id with sequence }) → Launched s act t id := by
    rintro quiet silent ⟨_, cell⟩
    exact .of_cell quiet silent (.inl (by rw [cell]))
      (fun pending => by rw [cell] at pending; exact pending)
  by_cases own : ∃ a, act = .task id a
  · obtain ⟨a, rfl⟩ := own
    obtain ⟨slot, moved, rfl⟩ := Option.map_eq_some_iff.mp (show _ = some t from stepped)
    exact launched_own moved (by simp [System.put])
  have quiet : act.launches id = false ∧ act.accepts id = false := by
    constructor
    all_goals
      by_contra calls
      unfold Act.launches Act.accepts at *
      split at calls <;> simp_all
  cases moved_step stepped id with
  | kept kept =>
    exact .of_cell quiet.1 quiet.2 (.inl kept.starter.1)
      (fun pending => kept.starter.2 ▸ pending)
  | started _ row new stored queued found starting cell =>
    exact .admitted quiet.1 quiet.2 row new stored queued found starting (by rw [cell])
  | enrolled _ _ _ _ _ cell | settled _ _ _ _ _ _ _ _ _ cell =>
    exact sequenced quiet.1 quiet.2 ⟨_, cell⟩
  | own a _ isAct => exact absurd ⟨a, isAct⟩ own
  | asked sigint sigterm _ view =>
    obtain ⟨sequence, isCell⟩ := (interrupts_interrupt (s.moment id) id (s.slot id) sigint sigterm).cell
    exact sequenced quiet.1 quiet.2 ⟨sequence, (congrArg View.cell view).trans isCell⟩
  | crashed middle kept _ tree isTree cell =>
    refine .of_cell quiet.1 quiet.2 (.inr (by rw [cell])) (fun pending => ?_)
    rw [cell] at pending
    rw [← kept.starter.2]
    obtain rfl | rfl := isTree
    · revert pending
      simp only [Tree.orphan]
      split
      · intro pending
        cases pending
      · exact fun pending => pending
    · rw [Tree.pending_reboot] at pending
      cases pending
  | watched _ _ _ _ _ _ _ cell =>
    exact .of_cell quiet.1 quiet.2 (.inl (by rw [cell]))
      (fun pending => by rw [cell] at pending; exact pending)
  | closed _ _ chain => exact sequenced quiet.1 quiet.2 (closes_cell chain)
  | confirmed _ _ _ _ result _ _ stepped view =>
    have cell : t.cells.get id = result.1.cell := congrArg View.cell view
    rw [cell_confirmStep stepped] at cell
    exact sequenced quiet.1 quiet.2 ⟨_, cell⟩

end Steps

section Runs

/-- A coroutine that starts a task was created when the task was admitted. -/
def System.Admits (s : System) : Prop := ∀ id, (s.cells.get id).unbegun = true → s.db.Admitted id

theorem admitted_grows {db next : Db} {accepts : TaskCreate → Prop} (changes : Changes accepts db next)
    (admitted : db.Admitted id) : next.Admitted id :=
  (changes.written_grows id).subset admitted

theorem admitted_of_row {db : Db} {row : TaskRecord} (agrees : Agrees db id)
    (found : db.getTask id = some row)
    (starting : row.state = .starting) : db.Admitted id := by
  have last := agrees.current row found
  rw [starting] at last
  exact List.mem_of_getLast? last

theorem Admits.step (admits : s.Admits) (sound : Sound s) (stepped : Step config s act t) :
    t.Admits := by
  intro id unbegun
  have changes : Changes (fun _ => True) s.db t.db := changes_step stepped (fun _ _ => trivial)
  cases launched_step stepped id with
  | rest _ before => exact admitted_grows changes (admits id (before unbegun))
  | admitted _ _ _ new _ _ found starting =>
    exact admitted_of_row (changes.agrees id (sound.agrees id)) found starting
  | begun _ _ _ after =>
    rw [after] at unbegun
    cases unbegun

/-- A launch that comes is one launch less that may come, and one more that may be accepted. -/
theorem launchesLeft_step (admits : s.Admits) (sound : Sound s) (stepped : Step config s act t)
    (id : TaskId) :
    t.launchesLeft id + (act.launches id).toNat ≤ s.launchesLeft id ∧
    t.pending id + (act.accepts id).toNat ≤ s.pending id + (act.launches id).toNat := by
  have changes : Changes (fun _ => True) s.db t.db := changes_step stepped (fun _ _ => trivial)
  have few : t.launchesLeft id ≤ 1 := by
    simp only [System.launchesLeft]
    split
    · exact Bool.toNat_le _
    · exact le_rfl
  cases launched_step stepped id with
  | rest quiet unbegun pending =>
    refine ⟨?_, by simpa [System.pending, quiet] using pending⟩
    rw [quiet]
    by_cases admitted : s.db.Admitted id
    · simp only [System.launchesLeft, admitted, admitted_grows changes admitted, if_true]
      exact Bool.toNat_le_toNat unbegun
    · simpa [System.launchesLeft, admitted] using few
  | admitted quiet silent row _ stored queued _ _ tree =>
    have fresh : ¬ s.db.Admitted id := fun admitted =>
      Db.Started.row ⟨_, admitted, TaskState.noConfusion⟩ (sound.agrees id) stored queued
    refine ⟨?_, by simp [System.pending, quiet, silent, tree]⟩
    simpa [System.launchesLeft, fresh, quiet] using few
  | begun launches silent before after =>
    have admitted := admits id before
    refine ⟨?_, ?_⟩
    · simp [System.launchesLeft, admitted, admitted_grows changes admitted, before, after, launches]
    · have one := Bool.toNat_le (t.cells.get id).tree.pending
      simp only [System.pending, launches, silent, Bool.toNat_true, Bool.toNat_false]
      omega

theorem launchesLeft_run (run : Run (Step config) s acts t) (admits : s.Admits) (sound : Sound s)
    (id : TaskId) :
    t.launchesLeft id + acts.countP (Act.launches id) ≤ s.launchesLeft id ∧
    t.pending id + acts.countP (Act.accepts id) ≤ s.pending id + acts.countP (Act.launches id) := by
  induction run with
  | nil => simp
  | @cons s act middle acts t stepped _ ih =>
    have first := launchesLeft_step admits sound stepped id
    have later := ih (Admits.step admits sound stepped) (sound.step stepped)
    have count : ∀ b : Bool, (if b = true then 1 else 0) = b.toNat := by decide
    rw [List.countP_cons, List.countP_cons, count, count]
    omega

/-- In every run, whatever crashes, reboots and failures it is made of, `executor.start` is called
at most once for a task, at most one process comes of it, and nothing is launched for a task that
was never admitted. -/
theorem launched_once {boot wall : String} {receipt : Receipt}
    (run : Run (Step config) (.initial boot wall receipt) acts t)
    (id : TaskId) : acts.countP (Act.launches id) ≤ 1 ∧
      acts.countP (Act.accepts id) ≤ acts.countP (Act.launches id) ∧
      (.starting ∉ t.db.written id → acts.countP (Act.launches id) = 0) := by
  have admits : (System.initial boot wall receipt).Admits := fun _ unbegun => nomatch unbegun
  obtain ⟨left, pending⟩ := launchesLeft_run run admits (sound_initial boot wall receipt) id
  have one : (System.initial boot wall receipt).launchesLeft id = 1 := rfl
  have none : (System.initial boot wall receipt).pending id = 0 := rfl
  rw [one] at left
  rw [none] at pending
  refine ⟨by omega, by omega, fun never => ?_⟩
  have remaining : t.launchesLeft id = 1 := by
    simp only [System.launchesLeft, Db.Admitted, never, if_false]
  omega

/-- A unit is accepted after its controller has died, and the next controller finds it. -/
def acceptedLate : List Act :=
  firstStart ++ [.submit "a" (.keyed []), .tick "" none, .task "a" .startBegin, .crash,
    .task "a" .accept,
    .recoverBegin true, .recover .next, .recover .query]

theorem launched_once_late :
    ∃ t, steps (.plain .systemd) (.initial "boot" "2026" .missing) acceptedLate = some t ∧
    acceptedLate.countP (Act.launches "a") = 1 ∧ acceptedLate.countP (Act.accepts "a") ≤ 1 := by
  have ran : (steps (.plain .systemd) (.initial "boot" "2026" .missing) acceptedLate).isSome =
    true := by decide +kernel
  obtain ⟨t, ran⟩ := Option.isSome_iff_exists.mp ran
  have once := launched_once (steps_run ran) "a"
  have launched : acceptedLate.countP (Act.launches "a") = 1 := by rfl
  exact ⟨t, ran, launched, launched ▸ once.2.1⟩

end Runs
end LocalFlow
