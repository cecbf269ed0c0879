import LocalFlow.Service.Effects
import LocalFlow.Lifecycle

/-! Who still owns a process. The systemd executor asks about the recorded reference of a task, so a
record without one is answered with no, whether a unit runs or not. -/
namespace LocalFlow
open Transition
variable {config : Config} {s t : System} {act : Act} {id : TaskId} {cell : Cell}

/-- The record names no unit to ask about. -/
def TaskRecord.Blind (row : TaskRecord) : Prop := row.executorRef.any (· ≠ "") = false

/-- The launch of the task has been answered and its starter has returned. -/
structure Known (cell : Cell) : Prop where
  starter : cell.starter = none
  pending : cell.tree.pending = false

/-- Moreover no process is left, and none can come of the launch. -/
structure Over (cell : Cell) : Prop extends Known cell where
  owns : cell.tree.owns = false

/-- What a coroutine that is about to decide about the task rests on. -/
def Waiter.Grounded (cell : Cell) : Waiter → Prop
  | .probing _ current (some false) => Known cell ∧ (current.Blind ∨ Over cell)
  | .evaluating _ _ => Over cell
  | _ => Known cell

def Confirm.Grounded (cell : Cell) : Confirm → Prop
  | .probing _ current none => current.Blind ∨ Known cell
  | .probing _ current (some false) => current.Blind ∨ Over cell
  | _ => True

def SequencePoint.Grounded (cell : Cell) : SequencePoint → Prop
  | .confirming confirm => confirm.Grounded cell
  | _ => True

/-- A task that is not active owns nothing, and what a coroutine has learnt is still true. -/
structure Owned (view : View) : Prop where
  inactive : (∀ row, view.row = some row → row.state.active = false) → Over view.cell
  created : view.cell.starter = some .created → view.cell.tree = .idle
  recorded : ∀ row, view.row = some row → row.Blind ∨ Known view.cell
  waiter : ∀ waiter, view.cell.waiter = some waiter → waiter.Grounded view.cell
  sequence : ∀ sequence, view.cell.sequence = some sequence → sequence.point.Grounded view.cell

section Stable
variable {other : Cell}

theorem over_fresh : Over {} := ⟨⟨rfl, rfl⟩, rfl⟩

theorem Known.congr (known : Known cell) (starter : other.starter = cell.starter)
    (tree : other.tree = cell.tree) : Known other :=
  ⟨starter.trans known.starter, by rw [tree, known.pending]⟩

theorem Over.congr (free : Over cell) (starter : other.starter = cell.starter)
    (tree : other.tree = cell.tree) : Over other :=
  ⟨free.toKnown.congr starter tree, by rw [tree, free.owns]⟩

theorem Waiter.Grounded.known {waiter : Waiter} (grounded : waiter.Grounded cell) : Known cell := by
  unfold Waiter.Grounded at grounded
  split at grounded
  · exact grounded.1
  · exact grounded.toKnown
  · exact grounded

theorem Waiter.Grounded.mono {waiter : Waiter} (grounded : waiter.Grounded cell)
    (known : Known cell → Known other) (free : Over cell → Over other) : waiter.Grounded other := by
  unfold Waiter.Grounded at grounded ⊢
  split at grounded
  · exact ⟨known grounded.1, grounded.2.imp_right free⟩
  · exact free grounded
  · exact known grounded

theorem Confirm.Grounded.mono {confirm : Confirm} (grounded : confirm.Grounded cell)
    (known : Known cell → Known other) (free : Over cell → Over other) : confirm.Grounded other := by
  unfold Confirm.Grounded at grounded ⊢
  split at grounded
  · exact grounded.imp_right known
  · exact grounded.imp_right free
  · trivial

theorem SequencePoint.Grounded.mono {point : SequencePoint} (grounded : point.Grounded cell)
    (known : Known cell → Known other) (free : Over cell → Over other) : point.Grounded other := by
  unfold SequencePoint.Grounded at grounded ⊢
  split at grounded
  · exact grounded.mono known free
  · trivial

theorem Over.waiter (free : Over cell) (waiter : Waiter) : waiter.Grounded cell := by
  unfold Waiter.Grounded
  split
  · exact ⟨free.toKnown, .inr free⟩
  · exact free
  · exact free.toKnown

theorem Over.confirm (free : Over cell) (confirm : Confirm) : confirm.Grounded cell := by
  unfold Confirm.Grounded
  split
  · exact .inr free.toKnown
  · exact .inr free
  · trivial

theorem Over.point (free : Over cell) (point : SequencePoint) : point.Grounded cell := by
  unfold SequencePoint.Grounded
  split
  · exact free.confirm _
  · trivial

/-- A task with no process and no launch is owned whatever its row says. -/
theorem Over.owned {view : View} (free : Over view.cell) : Owned view where
  inactive _ := free
  created starter := by
    rw [free.starter] at starter
    cases starter
  recorded _ _ := .inr free.toKnown
  waiter waiter _ := free.waiter waiter
  sequence sequence _ := free.point sequence.point

theorem collect_systemd (systemd : config.backend = .systemd) (tree : Tree) :
    tree.collect config.backend = tree := by
  cases tree <;> simp [Tree.collect, systemd]

/-- Only a tree with a process changes once its launch is answered. -/
theorem treeStep_owns {slot : Slot} {a : TaskAct} {tree : Tree}
    (answered : slot.cell.tree.pending = false) (moved : slot.treeStep config a = some tree) :
    slot.cell.tree.owns = true ∧ tree.pending = false := by
  unfold Slot.treeStep at moved
  split at moved
  · split at moved
    · rename_i requested
      rw [requested] at answered
      cases answered
    · cases moved
  · split at moved
    · rename_i requested
      rw [requested] at answered
      cases answered
    · cases moved
  · split at moved <;> cases moved
    rename_i owns
    rw [Bool.and_eq_true] at owns
    exact ⟨owns.2, rfl⟩
  · split at moved <;> cases moved
    rename_i owns
    rw [Bool.and_eq_true] at owns
    exact ⟨owns.2, rfl⟩
  · cases moved

theorem Known.tree {slot : Slot} {a : TaskAct} {tree : Tree} (known : Known slot.cell)
    (moved : slot.treeStep config a = some tree) : Known (slot.withTree tree).cell :=
  ⟨known.starter, (treeStep_owns known.pending moved).2⟩

theorem Known.own (systemd : config.backend = .systemd) {slot next : Slot} {moment : Moment}
    {a : TaskAct} (known : Known slot.cell) (steps : Steps config moment id slot a next) :
    Known next.cell ∧ (Over slot.cell → Over next.cell) := by
  cases steps with
  | tree tree moved =>
    refine ⟨known.tree moved, fun free => ?_⟩
    have owns := (treeStep_owns known.pending moved).1
    rw [free.owns] at owns
    cases owns
  | start stepped =>
    rw [known.starter] at stepped
    cases stepped
  | wait stepped =>
    obtain ⟨waiter, tree, isCell, same⟩ := (waited_waitStep stepped).cell
    rw [collect_systemd systemd, or_self] at same
    rw [isCell]
    exact ⟨known.congr rfl same, fun free => free.congr rfl same⟩
  | stop sequence isSequence stepped =>
    obtain ⟨_, isCell⟩ := (stops_stopStep stepped).cell
    rw [isCell]
    exact ⟨known.congr rfl rfl, fun free => free.congr rfl rfl⟩

end Stable

section Decisions

/-- The record on the strength of whose negative answer a step ends a task. -/
def Act.concludes (config : Config) (s : System) : Act → Option (TaskId × TaskRecord)
  | .task id .waitResume =>
    match (s.cells.get id).waiter with
    | some (.probing _ current (some false)) =>
      (completedCode config.backend (s.cells.get id).tree).map (fun _ => (id, current))
    | _ => none
  | .task id (.stop (.confirm .resume)) =>
    match (s.cells.get id).sequence with
    | some ⟨.confirming (.probing _ current (some false)), _⟩ =>
      (completedCode config.backend (s.cells.get id).tree).join.map (fun _ => (id, current))
    | _ => none
  | .recover .resume =>
    match s.phase with
    | .recovering ⟨_, _, _, _, .probing current _ (some false)⟩ => some (current.id, current)
    | _ => none
  | .closing (.confirm .resume) =>
    match s.phase with
    | .closing (.confirming _ id _ (.probing _ current (some false))) =>
      (completedCode config.backend (s.cells.get id).tree).join.map (fun _ => (id, current))
    | _ => none
  | _ => none

/-- The task that `recover` ends without asking, after a restart of the host. -/
def Act.presumes (s : System) : Act → Option TaskId
  | .recover .next =>
    match s.phase with
    | .recovering ⟨_, true, current :: _, _, .next⟩ => some current.id
    | _ => none
  | _ => none

/-- A task is ended on the strength of a record that names no unit, or after a restart of the host,
only when it has no process and no launch under way. -/
structure Warranted (config : Config) (s : System) (act : Act) : Prop where
  blind : ∀ id record, act.concludes config s = some (id, record) → record.Blind →
    Over (s.cells.get id)
  restarted : ∀ id, act.presumes s = some id → Over (s.cells.get id)

end Decisions

section Own
variable {slot next : Slot} {moment : Moment} {view : View}

/-- A task that is not over is active. -/
theorem Owned.active (owned : Owned view) (running : ¬ Over view.cell) :
    ∃ row, view.row = some row ∧ row.state.active = true := by
  by_contra none
  refine running (owned.inactive (fun row found => ?_))
  cases active : row.state.active with
  | false => rfl
  | true => exact absurd ⟨row, found, active⟩ none

theorem owned_active {row : TaskRecord} (found : view.row = some row)
    (active : row.state.active = true) (recorded : row.Blind ∨ Known view.cell)
    (created : view.cell.starter = some .created → view.cell.tree = .idle)
    (waiter : ∀ waiter, view.cell.waiter = some waiter → waiter.Grounded view.cell)
    (sequence : ∀ sequence, view.cell.sequence = some sequence →
      sequence.point.Grounded view.cell) : Owned view where
  inactive inactive := by
    rw [inactive row found] at active
    cases active
  created := created
  recorded other same := by
    rw [found] at same
    cases same
    exact recorded
  waiter := waiter
  sequence := sequence

theorem treeStep_idle {a : TaskAct} (idle : slot.cell.tree = .idle) :
    slot.treeStep config a = none := by
  unfold Slot.treeStep
  split <;> simp [idle, Tree.owns]

theorem Owned.tree (owned : Owned (slot.view id))
    (running : ¬ Over slot.cell) {a : TaskAct} {tree : Tree}
    (moved : slot.treeStep config a = some tree) : Owned ((slot.withTree tree).view id) := by
  obtain ⟨row, found, active⟩ := owned.active running
  have known : Known slot.cell → Known (slot.withTree tree).cell := fun known => known.tree moved
  have free : Over slot.cell → Over (slot.withTree tree).cell := fun free => absurd free running
  refine owned_active found active ((owned.recorded row found).imp_right known) (fun created => ?_)
    (fun waiter same => (owned.waiter waiter same).mono known free)
    (fun sequence same => (owned.sequence sequence same).mono known free)
  rw [treeStep_idle (owned.created created)] at moved
  cases moved

/-- While the starter of a task is there, nothing is known about the launch. -/
theorem Owned.start (systemd : config.backend = .systemd) (owned : Owned (slot.view id))
    (running : ¬ Over slot.cell) {a : TaskAct}
    (stepped : slot.startStep config moment id slot.cell.starter a = some next) :
    Owned (next.view id) := by
  obtain ⟨row, found, active⟩ := owned.active running
  have unknown : ¬ Known slot.cell := by
    intro known
    rw [known.starter] at stepped
    cases stepped
  have blind : row.Blind := (owned.recorded row found).resolve_right unknown
  have unwatched : slot.cell.waiter = none := by
    cases isWaiter : slot.cell.waiter with
    | none => rfl
    | some waiter => exact absurd (owned.waiter waiter isWaiter).known unknown
  have still : ∀ {cell : Cell} sequence, slot.cell.sequence = some sequence →
      sequence.point.Grounded cell := fun sequence same =>
    (owned.sequence sequence same).mono (fun known => absurd known unknown)
      (fun free => absurd free running)
  unfold Slot.startStep at stepped
  split at stepped
  · cases stepped
    unfold Slot.startBegin
    split
    · rename_i missing
      have isNone : slot.db.getTask id = none := missing
      rw [show slot.db.getTask id = some row from found] at isNone
      cases isNone
    · exact owned_active found active (.inl blind) (fun created => by cases created)
        (fun waiter same => by
          rw [show slot.cell.waiter = some waiter from same] at unwatched
          cases unwatched) still
  · rename_i pid _
    split at stepped <;> cases stepped
    rename_i answered
    have settled : slot.cell.tree.pending = false := by
      revert answered
      cases slot.cell.tree <;> simp [Tree.answered, Tree.pending]
    have writes := transition_writes slot.db moment.now id [.starting] .running
      [.pid (startPid config.backend pid),
        .executorRef (startReference config.backend config.namespaceHash id pid)] none
    rw [show slot.db.getTask id = some row from found] at writes
    have after : ∀ db : Db, Writes [.starting] .running [.pid (startPid config.backend pid),
        .executorRef (startReference config.backend config.namespaceHash id pid)] (some row)
        (db.getTask id) → ∃ new, db.getTask id = some new ∧ new.state.active = true := by
      intro db writes
      generalize db.getTask id = new at writes
      cases writes with
      | same => exact ⟨row, rfl, active⟩
      | moved => exact ⟨_, rfl, rfl⟩
    unfold Slot.startReturn
    split <;> rename_i result <;> rw [result] at writes <;> obtain ⟨new, isNew, live⟩ := after _ writes
    · have known : Known { slot.cell with starter := none } := ⟨rfl, settled⟩
      exact owned_active isNew live (.inr known) (fun created => by cases created)
        (fun waiter same => by
          rw [show slot.cell.waiter = some waiter from same] at unwatched
          cases unwatched) still
    · have known : Known { slot.cell with starter := none, waiter := some .created } := ⟨rfl, settled⟩
      exact owned_active isNew live (.inr known) (fun created => by cases created)
        (fun waiter same => by
          cases same
          exact known) still
  · split at stepped <;> cases stepped
    rename_i failed
    refine Over.owned ?_
    unfold Slot.startRaise
    have settled : slot.cell.tree.pending = false ∧ slot.cell.tree.owns = false := by
      revert failed
      cases slot.cell.tree <;> simp [Tree.failed, Tree.pending, Tree.owns]
    refine ⟨⟨rfl, ?_⟩, ?_⟩
    · change (slot.cell.tree.collect config.backend).pending = false
      rw [collect_systemd systemd, settled.1]
    · change (slot.cell.tree.collect config.backend).owns = false
      rw [collect_systemd systemd, settled.2]
  · cases stepped

/-- A step of `_wait` that leaves the row alone. -/
theorem Owned.watch (owned : Owned (slot.view id)) (running : ¬ Over slot.cell)
    (known : Known next.cell)
    (row : next.db.getTask id = slot.db.getTask id)
    (sequence : next.cell.sequence = slot.cell.sequence)
    (waiter : ∀ waiter, next.cell.waiter = some waiter → waiter.Grounded next.cell) :
    Owned (next.view id) := by
  obtain ⟨stored, found, active⟩ := owned.active running
  refine owned_active (row.trans found) active (.inr known) (fun created => ?_) waiter
    (fun point same => ?_)
  · have none := known.starter
    rw [show next.cell.starter = some .created from created] at none
    cases none
  · have isSequence : next.cell.sequence = some point := same
    rw [sequence] at isSequence
    exact (owned.sequence point isSequence).mono (fun _ => known) (fun free => absurd free running)

theorem waitAnswer_exited (systemd : config.backend = .systemd) {tree : Tree} {code : Int}
    (exited : waitAnswer config.backend tree = .exited code) : tree.owns = false := by
  cases owns : tree.owns with
  | false => rfl
  | true => simp [waitAnswer, systemd, owns] at exited

theorem Owned.wait (systemd : config.backend = .systemd) (owned : Owned (slot.view id))
    (running : ¬ Over slot.cell) {a : TaskAct}
    (stepped : slot.waitStep config moment id slot.cell.waiter a = some next)
    (warranted : ∀ failures current, a = .waitResume →
      slot.cell.waiter = some (.probing failures current (some false)) →
      (completedCode config.backend slot.cell.tree).isSome → current.Blind → Over slot.cell) :
    Owned (next.view id) := by
  obtain ⟨row, found, active⟩ := owned.active running
  have stored : slot.db.getTask id = some row := found
  have grounded := owned.waiter
  cases isWaiter : slot.cell.waiter with
  | none =>
    rw [isWaiter] at stepped
    cases stepped
  | some waiter =>
    have known := (grounded waiter isWaiter).known
    have knownNext := (known.own systemd (.wait stepped : Steps config moment id slot a next)).1
    have owns : slot.cell.tree.owns = true := by
      cases owns : slot.cell.tree.owns with
      | true => rfl
      | false => exact absurd ⟨known, owns⟩ running
    specialize grounded waiter isWaiter
    specialize warranted
    rw [isWaiter] at stepped warranted
    have watch : next.db.getTask id = slot.db.getTask id →
        next.cell.sequence = slot.cell.sequence → (∀ waiter, next.cell.waiter = some waiter →
          waiter.Grounded next.cell) → Owned (next.view id) :=
      owned.watch running knownNext
    unfold Slot.waitStep at stepped
    split at stepped
    · cases stepped
      exact watch rfl rfl (by rintro _ ⟨⟩; exact knownNext)
    · split at stepped
      · rename_i exited
        rw [waitAnswer_exited systemd exited] at owns
        cases owns
      · cases stepped
    · cases stepped
      refine watch ?_ ?_ (fun waiter same => ?_)
      · unfold Slot.waitRaise
        dsimp only
        split <;> rfl
      · unfold Slot.waitRaise
        dsimp only
        split <;> rfl
      · have isProbing : ∃ failures current, waiter = .probing failures current none := by
          unfold Slot.waitRaise at same
          dsimp only at same
          split at same <;> cases same
          exact ⟨_, _, rfl⟩
        obtain ⟨_, _, rfl⟩ := isProbing
        exact knownNext
    · rename_i failures current _
      cases stepped
      refine watch rfl rfl ?_
      rintro _ ⟨⟩
      cases blind : current.executorRef.any (· ≠ "") with
      | false =>
        cases isRunning config.backend current.executorRef slot.cell.tree with
        | true => exact knownNext.congr rfl rfl
        | false => exact ⟨knownNext.congr rfl rfl, .inl blind⟩
      | true =>
        have truth : isRunning config.backend current.executorRef slot.cell.tree = true := by
          simp only [isRunning, systemd, blind, owns, Bool.and_self]
        rw [truth]
        exact knownNext.congr rfl rfl
    · cases stepped
      exact watch rfl rfl (by rintro _ ⟨⟩; exact knownNext)
    · rename_i failures current answer same
      obtain rfl := Option.some.inj same
      cases stepped
      have isTrue : (completedCode config.backend slot.cell.tree).isSome → answer = true := by
        intro readable
        cases answer with
        | true => rfl
        | false =>
          have free := grounded.2.elim (warranted failures current rfl rfl readable) (fun free => free)
          exact absurd free running
      unfold Slot.waitResume at watch knownNext ⊢
      cases readable : completedCode config.backend slot.cell.tree with
      | none =>
        simp only [readable] at watch knownNext ⊢
        exact watch rfl rfl (by rintro _ ⟨⟩; exact knownNext)
      | some completed =>
        obtain rfl := isTrue (by simp [readable])
        simp only [readable, if_true] at watch knownNext ⊢
        exact watch rfl rfl (by rintro _ ⟨⟩; exact knownNext)
    · split at stepped <;> cases stepped
      exact watch rfl rfl (by rintro _ ⟨⟩; exact knownNext)
    · rename_i same
      obtain rfl := Option.some.inj same
      exact absurd grounded running
    · cases stepped

theorem confirmLoop_awaiting {attempt : Nat} {after : Confirm}
    (awaiting : slot.confirmLoop moment id attempt = .awaiting after) :
    ∃ wake, after = .sleeping attempt wake := by
  unfold Slot.confirmLoop at awaiting
  split at awaiting
  · cases awaiting
  · split at awaiting <;> cases awaiting
    exact ⟨_, rfl⟩

/-- The confirmation has learnt nothing false when it is suspended again. -/
theorem Confirm.Grounded.step (systemd : config.backend = .systemd) {confirm after : Confirm}
    {a : ConfirmAct} (grounded : confirm.Grounded slot.cell)
    (recorded : ∀ row, slot.db.getTask id = some row → row.Blind ∨ Known slot.cell)
    (stepped : slot.confirmStep config.backend moment id confirm a = some (next, .awaiting after)) :
    after.Grounded slot.cell := by
  unfold Slot.confirmStep at stepped
  split at stepped
  · split at stepped
    · rw [Option.some.injEq, Prod.mk.injEq] at stepped
      obtain ⟨_, isAfter⟩ := stepped
      unfold Slot.confirmWake at isAfter
      split at isAfter
      · cases isAfter
      · rename_i row found
        split at isAfter <;> cases isAfter
        exact recorded row found
    · cases stepped
  · rename_i current
    cases stepped
    cases answer : isRunning config.backend current.executorRef slot.cell.tree with
    | true => trivial
    | false =>
      obtain blind | known := grounded
      · exact .inl blind
      · simp only [isRunning, systemd, Bool.and_eq_false_iff] at answer
        exact answer.imp (fun blind => blind) (fun owns => ⟨known, owns⟩)
  · cases stepped
    trivial
  · rw [Option.some.injEq] at stepped
    unfold Slot.confirmResume at stepped
    split at stepped
    · cases stepped
      trivial
    · cases stepped
      trivial
    · split at stepped
      · cases stepped
        trivial
      · rw [Prod.mk.injEq] at stepped
        obtain ⟨_, isAfter⟩ := stepped
        split at isAfter <;> cases isAfter
  · rw [Option.some.injEq, Prod.mk.injEq] at stepped
    obtain ⟨_, isAfter⟩ := stepped
    obtain ⟨_, rfl⟩ := confirmLoop_awaiting isAfter
    trivial
  · cases stepped
  · cases stepped

theorem Halts.active {old new : Option TaskRecord} (halts : Halts old new) {row : TaskRecord}
    (found : old = some row) (active : row.state.active = true) :
    ∃ after, new = some after ∧ after.state.active = true ∧ (row.Blind → after.Blind) := by
  cases halts with
  | same => exact ⟨row, found, active, fun blind => blind⟩
  | stopping other status stage =>
    cases found
    exact ⟨_, rfl, rfl, fun blind => blind⟩

theorem Owned.stop (systemd : config.backend = .systemd) (owned : Owned (slot.view id))
    (running : ¬ Over slot.cell) {sequence : Sequence} {a : StopAct}
    (isSequence : slot.cell.sequence = some sequence)
    (stepped : slot.stopStep config.backend moment id sequence.point a = some next)
    (warranted : ∀ attempt current advance, a = .confirm .resume → slot.cell.sequence =
        some ⟨.confirming (.probing attempt current (some false)), advance⟩ →
      (completedCode config.backend slot.cell.tree).join.isSome → current.Blind → Over slot.cell) :
    Owned (next.view id) := by
  obtain ⟨row, found, active⟩ := owned.active running
  have stops := stops_stopStep stepped
  obtain ⟨changed, isCell⟩ := stops.cell
  have recorded : ∀ row, slot.db.getTask id = some row → row.Blind ∨ Known slot.cell := owned.recorded
  -- every way to go on keeps the row active and suspends the sequence at a grounded point
  have go : ∀ after, next.db.getTask id = some after → after.state.active = true →
      (row.Blind → after.Blind) → (∀ sequence, next.cell.sequence = some sequence →
        sequence.point.Grounded slot.cell) → Owned (next.view id) := by
    intro after isAfter live blind point
    have known : Known slot.cell → Known next.cell := fun known => by
      rw [isCell]
      exact known.congr rfl rfl
    have free : Over slot.cell → Over next.cell := fun free => absurd free running
    refine owned_active isAfter live ((recorded row found).imp blind known) (fun created => ?_)
      (fun waiter same => ?_) (fun sequence same => (point sequence same).mono known free)
    · change next.cell.starter = _ at created
      change next.cell.tree = _
      rw [isCell] at created ⊢
      exact owned.created created
    · change next.cell.waiter = _ at same
      rw [isCell] at same
      exact (owned.waiter waiter same).mono known free
  have rest : next.db.getTask id = slot.db.getTask id →
    (∀ sequence, next.cell.sequence = some sequence →
      sequence.point.Grounded slot.cell) → Owned (next.view id) := fun same =>
    go row (same.trans found) active (fun blind => blind)
  -- a confirmation that has not written the row either goes on, grounded, or is over
  have confirmed : ∀ result : Slot × ConfirmResult, result.1.db.getTask id = slot.db.getTask id →
      (∀ after, result.2 = .awaiting after → after.Grounded slot.cell) →
      next = Slot.confirmed result → Owned (next.view id) := by
    rintro result same grounded rfl
    obtain ⟨confirm, awaiting, isNext⟩ | ⟨_, isNext⟩ := confirmed_cases result
    · refine rest (by rw [isNext, Slot.db_suspend, same]) (fun sequence point => ?_)
      rw [isNext] at point
      cases point
      exact grounded confirm awaiting
    · refine rest (by rw [isNext, Slot.db_withSequence, same]) (fun sequence point => ?_)
      rw [isNext] at point
      cases point
  obtain ⟨point, advance⟩ := sequence
  dsimp only at stops stepped
  cases stops with
  | stage staged =>
    obtain ⟨after, isAfter, live, blind⟩ := staged.row.active found active
    refine go after isAfter live blind (fun sequence same => ?_)
    obtain ⟨none, _⟩ | ⟨point, advance, isPoint, stage, _⟩ := staged.sequence
    · rw [none] at same
      cases same
    · rw [isPoint] at same
      cases same
      revert stage
      cases point <;> simp [SequencePoint.Stage, SequencePoint.Grounded]
  | killed =>
    refine confirmed _ rfl (fun after isAfter => ?_) rfl
    obtain ⟨wake, rfl⟩ := confirmLoop_awaiting isAfter
    trivial
  | killRaise => exact rest rfl (by rintro _ ⟨⟩)
  | cancelled entered =>
    refine rest rfl (fun sequence same => ?_)
    cases entered <;> cases same
    trivial
  | @confirm confirm a result confirming =>
    have before : confirm.Grounded slot.cell := owned.sequence _ isSequence
    obtain ⟨late, outcome⟩ := result
    have confirms : Confirms config.backend id slot confirm a late outcome :=
      confirms_confirmStep confirming
    cases confirms with
    | awaiting after cell row =>
      refine confirmed _ row (fun other same => ?_) rfl
      cases same
      exact before.step systemd recorded confirming
    | ended cell row =>
      exact confirmed _ row (fun _ impossible => by cases impossible) rfl
    | raised cell row =>
      exact confirmed _ row (fun _ impossible => by cases impossible) rfl
    | @confirmed attempt current _ fields code exited =>
      have free : current.Blind → Over slot.cell := by
        refine warranted attempt current advance rfl isSequence ?_
        rw [exited]
        rfl
      exact absurd (before.elim free (fun free => free)) running

end Own
end LocalFlow
