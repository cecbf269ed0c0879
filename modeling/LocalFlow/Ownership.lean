import LocalFlow.Ownership.Owned

/-! No task that has ended owns a process, as long as nothing was decided about it on the strength of
a record that names no unit. -/
namespace LocalFlow
open Transition
variable {config : Config} {s t : System} {act : Act} {id : TaskId}

section Tasks

/-- Some state after queued has been written for the task. -/
def Db.Started (db : Db) (id : TaskId) : Prop := ∃ state ∈ db.written id, state ≠ .queued

theorem started_of_row {db : Db} {row : TaskRecord} (agrees : Agrees db id)
    (found : db.getTask id = some row) (state : row.state ≠ .queued) : db.Started id :=
  ⟨row.state, List.mem_of_getLast? (agrees.current row found), state⟩

theorem Db.Started.row {db : Db} {row : TaskRecord} (started : db.Started id) (agrees : Agrees db id)
    (found : db.getTask id = some row) : row.state ≠ .queued := by
  obtain ⟨state, member, apart⟩ := started
  have last := agrees.current row found
  have moves := (agrees.history (List.ne_nil_of_mem member)).moves
  obtain ⟨early, late, isWritten⟩ := List.append_of_mem member
  have split : db.written id = (early ++ [state]) ++ late := by simp [isWritten]
  rw [split] at moves last
  exact (follows_chain moves (by simp) last).started apart

theorem Interrupts.cell {slot next : Slot} {raised : Bool}
    (interrupts : Interrupts id slot next raised) :
    ∃ sequence, next.cell = { slot.cell with sequence } := by
  cases interrupts with
  | missing => exact ⟨_, rfl⟩
  | queued _ cell | hidden _ _ _ _ _ _ cell => exact ⟨_, cell⟩
  | stopping _ _ _ _ _ _ _ _ _ cell | advanced _ _ _ _ _ cell => exact ⟨_, cell⟩

theorem Closes.cell {v w : View} (closes : Closes id v w) :
    ∃ sequence, w.cell = { v.cell with sequence } := by
  cases closes with
  | asked slot moment sigint sigterm => exact (interrupts_interrupt moment id slot sigint sigterm).cell
  | cancelled | forced => exact ⟨_, rfl⟩

theorem closes_cell {v w : View} (chain : Relation.ReflTransGen (Closes id) v w) :
    ∃ sequence, w.cell = { v.cell with sequence } := by
  induction chain with
  | refl => exact ⟨_, rfl⟩
  | tail _ closes ih =>
    obtain ⟨early, isEarly⟩ := ih
    obtain ⟨late, isLate⟩ := closes.cell
    exact ⟨late, by rw [isLate, isEarly]⟩

/-- Only a task that has left the queue gets a sequence. -/
theorem Closes.idle {v w : View} (closes : Closes id v w)
    (idle : v.cell = {} ∨ ∃ row, v.row = some row ∧ row.state ≠ .queued) :
    w.cell = {} ∨ ∃ row, w.row = some row ∧ row.state ≠ .queued := by
  cases closes with
  | asked slot moment sigint sigterm =>
    have interrupts := interrupts_interrupt moment id slot sigint sigterm
    generalize (slot.interrupt moment id sigint sigterm).1 = next at interrupts
    generalize (slot.interrupt moment id sigint sigterm).2 = raised at interrupts
    cases interrupts with
    | missing => exact idle
    | queued fields cell row was =>
      obtain blank | ⟨row, found, started⟩ := idle
      · exact .inl (cell.trans blank)
      · obtain ⟨r, same, queued⟩ := was
        have isRow : slot.db.getTask id = some row := found
        rw [same] at isRow
        cases isRow
        exact absurd queued started
    | stopping r stop status _ _ _ _ _ row =>
      exact .inr ⟨_, row, by simp⟩
    | hidden r stop found live _ row cell =>
      refine .inr ⟨_, row, fun queued => ?_⟩
      have same : r.state = .queued := queued
      obtain state | state := live <;> rw [state] at same <;> cases same
    | advanced r found started _ row => exact .inr ⟨r, row, started⟩
  | cancelled =>
    obtain blank | started := idle
    · exact .inl (by simp [blank])
    · exact .inr started
  | forced _ row stops =>
    obtain blank | ⟨old, found, started⟩ := idle
    · exact .inl blank
    · right
      rw [found] at stops
      cases stops with
      | same => exact ⟨old, rfl, started⟩
      | moved => exact ⟨_, rfl, by simp⟩

theorem closes_idle {v w : View} (chain : Relation.ReflTransGen (Closes id) v w)
    (idle : v.cell = {} ∨ ∃ row, v.row = some row ∧ row.state ≠ .queued) :
    w.cell = {} ∨ ∃ row, w.row = some row ∧ row.state ≠ .queued := by
  induction chain with
  | refl => exact idle
  | tail _ closes ih => exact closes.idle ih

theorem Known.unlink {cell : Cell} (known : Known cell) (backend : Backend) :
    Known (cell.unlink backend) :=
  ⟨known.starter, (Tree.pending_unlink backend cell.tree).trans known.pending⟩

theorem Over.unlink {cell : Cell} (free : Over cell) (backend : Backend) :
    Over (cell.unlink backend) :=
  ⟨free.toKnown.unlink backend, (Tree.owns_unlink backend cell.tree).trans free.owns⟩

theorem orphan_systemd (systemd : config.backend = .systemd) (tree : Tree) :
    tree.orphan config.backend = tree := by
  simp [Tree.orphan, systemd]

theorem Known.crashed (systemd : config.backend = .systemd) {cell : Cell} {tree : Tree}
    (known : Known cell) (isTree : tree = cell.tree.orphan config.backend ∨
      tree = (cell.tree.orphan config.backend).reboot) : Known { tree } := by
  rw [orphan_systemd systemd] at isTree
  obtain rfl | rfl := isTree
  · exact ⟨rfl, known.pending⟩
  · exact ⟨rfl, Tree.pending_reboot _⟩

theorem Over.crashed (systemd : config.backend = .systemd) {cell : Cell} {tree : Tree}
    (free : Over cell) (isTree : tree = cell.tree.orphan config.backend ∨
      tree = (cell.tree.orphan config.backend).reboot) : Over { tree } := by
  refine ⟨free.toKnown.crashed systemd isTree, ?_⟩
  rw [orphan_systemd systemd] at isTree
  obtain rfl | rfl := isTree
  · exact free.owns
  · exact Tree.owns_reboot _

/-- What is known about the process of a task stays known until the scheduler starts the task. -/
theorem Moved.knows (systemd : config.backend = .systemd) (moved : Moved config s act t id) :
    (s.phase = .serving ∧ (∃ row, s.db.getTask id = some row ∧ row.state = .queued) ∧
      (∃ new, t.db.getTask id = some new ∧ new.state = .starting) ∧
      t.cells.get id = { s.cells.get id with starter := some .created }) ∨
    (Known (s.cells.get id) → Known (t.cells.get id)) ∧
      (Over (s.cells.get id) → Over (t.cells.get id)) := by
  have sequenced : (∃ sequence, t.cells.get id = { s.cells.get id with sequence }) →
      (Known (s.cells.get id) → Known (t.cells.get id)) ∧
        (Over (s.cells.get id) → Over (t.cells.get id)) := by
    rintro ⟨sequence, isCell⟩
    rw [isCell]
    exact ⟨fun known => known.congr rfl rfl, fun free => free.congr rfl rfl⟩
  cases moved with
  | kept kept =>
    right
    cases kept with
    | same _ cell =>
      rw [cell]
      exact ⟨fun known => known, fun free => free⟩
    | ended _ _ cell =>
      obtain cell | cell := cell <;> rw [cell]
      · exact ⟨fun known => known, fun free => free⟩
      · exact ⟨fun known => known.unlink _, fun free => free.unlink _⟩
  | started serving row new stored queued found starting cell =>
    exact .inl ⟨serving, ⟨row, stored, queued⟩, ⟨new, found, starting⟩, cell⟩
  | enrolled row _ _ _ _ cell | settled _ _ _ _ _ _ _ _ _ cell =>
    rw [cell]
    exact .inr ⟨fun known => known, fun free => free⟩
  | own a next isAct stepped view =>
    right
    have cell : t.cells.get id = next.cell := congrArg View.cell view
    rw [cell]
    exact ⟨fun known => (known.own systemd (steps_taskStep stepped)).1,
      fun free => (free.toKnown.own systemd (steps_taskStep stepped)).2 free⟩
  | asked sigint sigterm _ view =>
    obtain ⟨sequence, isCell⟩ :=
      (interrupts_interrupt (s.moment id) id (s.slot id) sigint sigterm).cell
    exact .inr (sequenced ⟨sequence, (congrArg View.cell view).trans isCell⟩)
  | crashed middle kept row tree isTree cell =>
    right
    rw [cell]
    have before : (Known (s.cells.get id) → Known (middle.cells.get id)) ∧
        (Over (s.cells.get id) → Over (middle.cells.get id)) := by
      cases kept with
      | same _ cell =>
        rw [cell]
        exact ⟨fun known => known, fun free => free⟩
      | ended _ _ cell =>
        obtain cell | cell := cell <;> rw [cell]
        · exact ⟨fun known => known, fun free => free⟩
        · exact ⟨fun known => known.unlink _, fun free => free.unlink _⟩
    exact ⟨fun known => (before.1 known).crashed systemd isTree,
      fun free => (before.2 free).crashed systemd isTree⟩
  | watched _ _ _ _ _ _ _ cell =>
    rw [cell]
    exact .inr ⟨fun known => known.congr rfl rfl, fun free => free.congr rfl rfl⟩
  | closed _ _ chain => exact .inr (sequenced (closes_cell chain))
  | confirmed _ _ _ _ result _ _ stepped view =>
    have cell : t.cells.get id = result.1.cell := congrArg View.cell view
    rw [cell, cell_confirmStep stepped]
    exact .inr ⟨fun known => known, fun free => free⟩

theorem Sequence.cancel_grounded {cell : Cell} (sequence : Sequence) :
    sequence.cancel.point.Grounded cell := by
  obtain ⟨point, advance⟩ := sequence
  cases point <;> trivial

/-- Only the row and the sequence of an active task change, and the row keeps its reference. -/
theorem Owned.sequenced {v w : View} (owned : Owned v) (running : ¬ Over v.cell)
    (row : ∀ row, v.row = some row → row.state.active = true →
      ∃ after, w.row = some after ∧ after.state.active = true ∧ (row.Blind → after.Blind))
    (cell : ∃ sequence, w.cell = { v.cell with sequence })
    (sequence : ∀ sequence, w.cell.sequence = some sequence → sequence.point.Grounded v.cell) :
    Owned w := by
  obtain ⟨stored, found, active⟩ := owned.active running
  obtain ⟨after, isAfter, live, blind⟩ := row stored found active
  obtain ⟨changed, isCell⟩ := cell
  have known : Known v.cell → Known w.cell := fun known => by
    rw [isCell]
    exact known.congr rfl rfl
  have free : Over v.cell → Over w.cell := fun free => absurd free running
  refine owned_active isAfter live ((owned.recorded stored found).imp blind known) (fun created => ?_)
    (fun waiter same => ?_) (fun point same => (sequence point same).mono known free)
  · rw [isCell] at created ⊢
    exact owned.created created
  · rw [isCell] at same
    exact (owned.waiter waiter same).mono known free

theorem Owned.closes {v w : View} (owned : Owned v) (closes : Closes id v w) : Owned w := by
  obtain ⟨sequence, isCell⟩ := closes.cell
  by_cases running : Over v.cell
  · refine Over.owned ?_
    rw [isCell]
    exact running.congr rfl rfl
  refine owned.sequenced running ?_ ⟨sequence, isCell⟩ ?_
  · intro row found active
    cases closes with
    | asked slot moment sigint sigterm =>
      have interrupts := interrupts_interrupt moment id slot sigint sigterm
      generalize (slot.interrupt moment id sigint sigterm).1 = next at interrupts
      generalize (slot.interrupt moment id sigint sigterm).2 = raised at interrupts
      have stored : slot.db.getTask id = some row := found
      cases interrupts with
      | missing gone =>
        rw [stored] at gone
        cases gone
      | queued _ _ _ was =>
        obtain ⟨r, same, queued⟩ := was
        rw [stored] at same
        cases same
        rw [queued] at active
        cases active
      | stopping r stop status _ _ same _ _ after =>
        rw [stored] at same
        cases same
        exact ⟨_, after, rfl, fun blind => blind⟩
      | hidden r stop same _ _ after =>
        rw [stored] at same
        cases same
        exact ⟨_, after, active, fun blind => blind⟩
      | advanced r same _ _ after =>
        rw [stored] at same
        cases same
        exact ⟨_, after, active, fun blind => blind⟩
    | cancelled => exact ⟨row, found, active, fun blind => blind⟩
    | forced _ after stops => exact stops.halts.active found active
  · intro sequence same
    cases closes with
    | asked slot moment sigint sigterm =>
      have interrupts := interrupts_interrupt moment id slot sigint sigterm
      change (slot.interrupt moment id sigint sigterm).1.cell.sequence = some sequence at same
      have kept : ∀ cell : Cell, cell = slot.cell → cell.sequence = some sequence →
          sequence.point.Grounded slot.cell := by
        rintro _ rfl same
        exact owned.sequence sequence same
      generalize (slot.interrupt moment id sigint sigterm).1 = next at interrupts same
      generalize (slot.interrupt moment id sigint sigterm).2 = raised at interrupts
      cases interrupts with
      | missing => exact owned.sequence sequence same
      | queued _ cell => exact kept _ cell same
      | hidden _ _ _ _ _ _ cell => exact kept _ cell same
      | stopping _ _ _ _ _ _ _ _ _ cell =>
        rw [cell] at same
        cases same
        trivial
      | advanced _ _ _ _ _ cell =>
        rw [cell] at same
        obtain ⟨before, isBefore, rfl⟩ := Option.map_eq_some_iff.mp same
        exact owned.sequence before isBefore
    | cancelled =>
      obtain ⟨before, _, rfl⟩ := Option.map_eq_some_iff.mp same
      exact before.cancel_grounded
    | forced => exact owned.sequence sequence same

theorem owned_closes {v w : View} (chain : Relation.ReflTransGen (Closes id) v w) (owned : Owned v) :
    Owned w := by
  induction chain with
  | refl => exact owned
  | tail _ closes ih => exact ih.closes closes

end Tasks
section Phases

/-- A task `recover` has read from a page. -/
def Paged (s : System) (task : TaskRecord) : Prop :=
  s.db.Started task.id ∧ (task.Blind ∨ Known (s.cells.get task.id))

/-- What `recover` rests on. -/
def RecoveryPoint.Grounded (s : System) : RecoveryPoint → Prop
  | .next => True
  | .probing task _ none => Paged s task
  | .probing task _ (some true) => s.db.Started task.id ∧ Known (s.cells.get task.id)
  | .probing task _ (some false) => task.Blind ∨ Over (s.cells.get task.id)
  | .evaluating task _ => Over (s.cells.get task.id)

def Phase.Grounded (s : System) : Phase → Prop
  | .recovering recovery => (∀ task ∈ recovery.todo, Paged s task) ∧ recovery.point.Grounded s
  | .closing (.confirming _ id _ confirm) => confirm.Grounded (s.cells.get id)
  | _ => True

/-- The invariant of the ownership. -/
structure Owns (s : System) : Prop where
  agrees : ∀ id, Agrees s.db id
  unreferenced : s.db.Unreferenced
  idle : ∀ id, ¬ s.db.Started id → s.cells.get id = {}
  owned : ∀ id, Owned (s.view id)
  phase : s.phase.Grounded s

theorem Owns.listed (owns : Owns s) {task : TaskRecord} {cursor : Option SortKey}
    (member : task ∈ s.db.statePage activeStates taskPageSize cursor) : Paged s task := by
  obtain ⟨found, active⟩ := Db.mem_statePage (by decide) member
  refine ⟨started_of_row (owns.agrees task.id) found (fun queued => ?_),
    (owns.owned task.id).recorded task found⟩
  rw [queued] at active
  revert active
  decide

/-- What a step outside `serving` keeps of every task. -/
structure Keeps (s t : System) : Prop where
  started : ∀ id, s.db.Started id → t.db.Started id
  known : ∀ id, Known (s.cells.get id) → Known (t.cells.get id)
  free : ∀ id, Over (s.cells.get id) → Over (t.cells.get id)

theorem started_grows {db next : Db} {accepts : TaskCreate → Prop} (changes : Changes accepts db next)
    (started : db.Started id) : next.Started id := by
  obtain ⟨state, member, apart⟩ := started
  exact ⟨state, (changes.written_grows id).subset member, apart⟩

theorem keeps_step (systemd : config.backend = .systemd) (stepped : Step config s act t)
    (busy : s.phase ≠ .serving) : Keeps s t := by
  have knows := fun id => ((moved_step stepped id).knows systemd).resolve_left
    (fun serving => busy serving.1)
  have changes : Changes (fun _ => True) s.db t.db := changes_step stepped (fun _ _ => trivial)
  exact ⟨fun id => started_grows changes,
    fun id => (knows id).1, fun id => (knows id).2⟩

variable {task : TaskRecord} {recovery : Recovery}

theorem Keeps.listed (keeps : Keeps s t) (listed : Paged s task) : Paged t task :=
  ⟨keeps.started _ listed.1, listed.2.imp_right (keeps.known _)⟩

theorem Keeps.point (keeps : Keeps s t) {point : RecoveryPoint} (grounded : point.Grounded s) :
    point.Grounded t := by
  unfold RecoveryPoint.Grounded at grounded ⊢
  split at grounded
  · trivial
  · exact keeps.listed grounded
  · exact ⟨keeps.started _ grounded.1, keeps.known _ grounded.2⟩
  · exact grounded.imp_right (keeps.free _)
  · exact keeps.free _ grounded

theorem Keeps.phase (keeps : Keeps s t) {phase : Phase} (grounded : phase.Grounded s) :
    phase.Grounded t := by
  unfold Phase.Grounded at grounded ⊢
  split at grounded
  · exact ⟨fun task member => keeps.listed (grounded.1 task member), keeps.point grounded.2⟩
  · exact grounded.mono (keeps.known _) (keeps.free _)
  · trivial

end Phases
section Steps
variable {recovery : Recovery}

theorem core_executorRef {a b : TaskRecord} (same : a.core = b.core) :
    a.executorRef = b.executorRef := by
  have references := congrArg TaskRecord.executorRef same
  exact references

/-- A kept row of an active task. -/
theorem Kept.active (kept : Kept config s t id) {row : TaskRecord} (found : s.db.getTask id = some row)
    (active : row.state.active = true) : t.cells.get id = s.cells.get id ∧
      ∃ new, t.db.getTask id = some new ∧ new.state.active = true ∧ (row.Blind → new.Blind) := by
  cases kept with
  | same stored cell =>
    rw [found, Option.map_some] at stored
    obtain ⟨new, isNew, same⟩ := Option.map_eq_some_iff.mp stored
    refine ⟨cell, new, isNew, by rw [core_state same, active], fun blind => ?_⟩
    unfold TaskRecord.Blind
    rw [core_executorRef same]
    exact blind
  | ended ended =>
    have terminal := ended row found
    revert active terminal
    cases row.state <;> simp [TaskState.active, TaskState.terminal]

theorem concludes_recover {task : TaskRecord} {completed : Option Int}
    (phase : s.phase = .recovering recovery)
    (point : recovery.point = .probing task completed (some false)) :
    (Act.recover .resume).concludes config s = some (task.id, task) := by
  obtain ⟨_, _, _, _, same⟩ := recovery
  dsimp only at point
  subst point
  simp [Act.concludes, phase]

theorem Warranted.over_ends (warranted : Warranted config s act) {a : RecoverAct}
    (isAct : act = .recover a) (phase : s.phase = .recovering recovery) (ends : recovery.Ends a id)
    (grounded : recovery.point.Grounded s) : Over (s.cells.get id) := by
  obtain ⟨bootId, hostRestarted, todo, tail, point⟩ := recovery
  subst isAct
  unfold Recovery.Ends at ends
  dsimp only at ends grounded
  split at ends
  · obtain ⟨rfl, task, rest, rfl, rfl⟩ := ends
    exact warranted.restarted task.id (by simp [Act.presumes, phase])
  · obtain ⟨rfl, rfl⟩ := ends
    exact grounded.elim (warranted.blind _ _ (by simp [Act.concludes, phase])) (fun free => free)
  · obtain rfl := ends
    exact grounded
  · exact absurd ends not_false

/-- The confirmation of `shutdown_all`. -/
theorem Owned.confirmed {slot : Slot} {moment : Moment} {confirm : Confirm} {a : ConfirmAct}
    {result : Slot × ConfirmResult} (owned : Owned (slot.view id)) (running : ¬ Over slot.cell)
    (grounded : confirm.Grounded slot.cell)
    (stepped : slot.confirmStep config.backend moment id confirm a = some result)
    (warranted : ∀ attempt current, a = .resume → confirm = .probing attempt current (some false) →
      (completedCode config.backend slot.cell.tree).join.isSome → current.Blind → Over slot.cell) :
    Owned (result.1.view id) := by
  have same : result.1.db.getTask id = slot.db.getTask id → result.1.cell = slot.cell →
      Owned (result.1.view id) := by
    intro row cell
    have view : result.1.view id = slot.view id := by simp only [Slot.view, row, cell]
    rw [view]
    exact owned
  obtain ⟨late, outcome⟩ := result
  have confirms : Confirms config.backend id slot confirm a late outcome :=
    confirms_confirmStep stepped
  cases confirms with
  | awaiting _ cell row => exact same row cell
  | ended cell row => exact same row cell
  | raised cell row => exact same row cell
  | @confirmed attempt current _ fields code exited =>
    have free : current.Blind → Over slot.cell := by
      refine warranted attempt current rfl rfl ?_
      rw [exited]
      rfl
    exact absurd (grounded.elim free (fun free => free)) running

theorem Owns.owned_step (systemd : config.backend = .systemd) (owns : Owns s)
    (warranted : Warranted config s act) (stepped : Step config s act t) (id : TaskId) :
    Owned (t.view id) := by
  have moved := moved_step stepped id
  have owned := owns.owned id
  have slotted : Owned ((s.slot id).view id) := owned
  have changes : Changes (fun _ => True) s.db t.db := changes_step stepped (fun _ _ => trivial)
  obtain ⟨_, ⟨row, stored, queued⟩, ⟨new, found, starting⟩, cell⟩ | ⟨_, free⟩ := moved.knows systemd
  · -- the scheduler has started the task: nothing exists for it yet
    have blank : s.cells.get id = {} :=
      owns.idle id (fun started => started.row (owns.agrees id) stored queued)
    have blind : new.Blind := by
      unfold TaskRecord.Blind
      rw [changes.unreferenced owns.unreferenced id new found (.inr starting)]
      rfl
    rw [blank] at cell
    have stored : (t.view id).row = some new := found
    refine owned_active stored (by rw [starting]; rfl) (.inl blind) ?_ ?_ ?_
    · intro _
      change (t.cells.get id).tree = .idle
      rw [cell]
    · intro waiter same
      change (t.cells.get id).waiter = some waiter at same
      rw [cell] at same
      cases same
    · intro sequence same
      change (t.cells.get id).sequence = some sequence at same
      rw [cell] at same
      cases same
  by_cases running : Over (s.cells.get id)
  · exact Over.owned (free running)
  obtain ⟨row, stored, active⟩ := owned.active running
  have found : s.db.getTask id = some row := stored
  cases moved with
  | kept kept =>
    refine owned.sequenced running (fun other same live => ?_) ⟨_, (kept.active found active).1⟩
      (fun sequence same => ?_)
    · exact (kept.active same live).2
    · refine owned.sequence sequence ?_
      change (t.cells.get id).sequence = some sequence at same
      rw [(kept.active found active).1] at same
      exact same
  | started _ other _ same queued =>
    rw [found] at same
    cases same
    rw [queued] at active
    cases active
  | enrolled _ missing =>
    rw [found] at missing
    cases missing
  | own a next isAct task view =>
    subst isAct
    rw [view]
    cases steps_taskStep task with
    | tree tree moved => exact slotted.tree running moved
    | start begun => exact slotted.start systemd running begun
    | wait waited =>
      refine slotted.wait systemd running waited (fun failures current isAct isWaiter readable => ?_)
      subst isAct
      obtain ⟨completed, isCompleted⟩ := Option.isSome_iff_exists.mp readable
      refine warranted.blind id current ?_
      change (s.cells.get id).waiter = _ at isWaiter
      change completedCode config.backend (s.cells.get id).tree = _ at isCompleted
      simp [Act.concludes, isWaiter, isCompleted]
    | stop sequence isSequence stopped =>
      refine slotted.stop systemd running isSequence stopped
        (fun attempt current advance isAct same readable => ?_)
      subst isAct
      obtain ⟨code, isCode⟩ := Option.isSome_iff_exists.mp readable
      refine warranted.blind id current ?_
      change (s.cells.get id).sequence = _ at same
      change (completedCode config.backend (s.cells.get id).tree).join = _ at isCode
      simp [Act.concludes, same, isCode]
  | asked sigint sigterm _ view =>
    rw [view]
    exact owned.closes (.asked (s.slot id) _ sigint sigterm)
  | crashed middle kept row' tree isTree cell =>
    obtain ⟨same, new, isNew, live, blind⟩ := kept.active found active
    have known : Known (s.cells.get id) → Known { tree } := fun known =>
      known.crashed systemd (by rw [same] at isTree; exact isTree)
    have after : (t.view id).row = some new := row'.trans isNew
    refine owned_active after live ?_ ?_ ?_ ?_
    · refine (owned.recorded row stored).imp blind (fun before => ?_)
      change Known (t.cells.get id)
      rw [cell]
      exact known before
    · intro created
      change (t.cells.get id).starter = _ at created
      rw [cell] at created
      cases created
    · intro waiter isWaiter
      change (t.cells.get id).waiter = _ at isWaiter
      rw [cell] at isWaiter
      cases isWaiter
    · intro sequence isSequence
      change (t.cells.get id).sequence = _ at isSequence
      rw [cell] at isSequence
      cases isSequence
  | settled recovery a isAct phase ends =>
    have grounded := owns.phase
    rw [phase] at grounded
    exact absurd (warranted.over_ends isAct phase ends grounded.2) running
  | watched recovery task completed phase point named row' cell =>
    have grounded := owns.phase
    rw [phase] at grounded
    have learnt := grounded.2
    rw [point] at learnt
    have before : Known (s.cells.get task.id) := learnt.2
    rw [named] at before
    have known : Known (t.cells.get id) := by
      rw [cell]
      exact before.congr rfl rfl
    have found' : (t.view id).row = some row := row'.trans found
    refine owned_active found' active (.inr known) ?_ ?_ ?_
    · intro created
      have none := known.starter
      change (t.cells.get id).starter = _ at created
      rw [created] at none
      cases none
    · intro waiter isWaiter
      change (t.cells.get id).waiter = _ at isWaiter
      rw [cell] at isWaiter
      cases isWaiter
      exact known
    · intro sequence isSequence
      change (t.cells.get id).sequence = _ at isSequence
      rw [cell] at isSequence
      dsimp only at isSequence
      split at isSequence
      · cases isSequence
        trivial
      · exact (owned.sequence sequence isSequence).mono (fun _ => known)
          (fun free => absurd free running)
  | closed a _ chain => exact owned_closes chain owned
  | confirmed exited todo confirm a result isAct phase stepped view =>
    rw [view]
    have grounded := owns.phase
    rw [phase] at grounded
    refine slotted.confirmed running grounded stepped (fun attempt current isResume same readable => ?_)
    subst isResume same isAct
    obtain ⟨code, isCode⟩ := Option.isSome_iff_exists.mp readable
    refine warranted.blind id current ?_
    change (completedCode config.backend (s.cells.get id).tree).join = _ at isCode
    simp [Act.concludes, phase, isCode]

theorem taskStep_blank {slot : Slot} {moment : Moment} {a : TaskAct} (blank : slot.cell = {}) :
    slot.taskStep config moment id a = none := by
  have idle : slot.cell.tree = .idle := by rw [blank]
  cases a
  all_goals
    simp only [Slot.taskStep, treeStep_idle idle, blank]
    rfl

/-- A task that has not been started has no coroutine and no process. -/
theorem idle_step (stepped : Step config s act t) (agrees : Agrees t.db id)
    (fresh : ¬ t.db.Started id) (blank : s.cells.get id = {})
    (visited : ∀ recovery task completed, s.phase = .recovering recovery →
      recovery.point = .probing task completed (some true) → s.db.Started task.id) :
    t.cells.get id = {} := by
  have changes : Changes (fun _ => True) s.db t.db := changes_step stepped (fun _ _ => trivial)
  have kept_blank : ∀ {middle : System}, Kept config s middle id → middle.cells.get id = {} := by
    intro middle kept
    cases kept with
    | same _ cell => exact cell.trans blank
    | ended _ _ cell =>
      obtain cell | cell := cell
      · exact cell.trans blank
      · rw [cell, blank]
        rfl
  have resolve : t.cells.get id = {} ∨ (∃ row, t.db.getTask id = some row ∧ row.state ≠ .queued) →
      t.cells.get id = {} := by
    rintro (blank | ⟨row, found, state⟩)
    · exact blank
    · exact absurd (started_of_row agrees found state) fresh
  cases moved_step stepped id with
  | kept kept => exact kept_blank kept
  | started _ row new stored queued found starting =>
    exact absurd (started_of_row agrees found (by rw [starting]; decide)) fresh
  | enrolled _ _ _ _ _ cell => exact cell.trans blank
  | own a next isAct task =>
    rw [taskStep_blank blank] at task
    cases task
  | asked sigint sigterm _ view =>
    have asked := (Closes.asked (s.slot id) (s.moment id) sigint sigterm : Closes id _ _).idle
      (.inl blank)
    rw [← view] at asked
    exact resolve asked
  | crashed middle kept _ tree isTree cell =>
    rw [kept_blank kept] at isTree
    rw [cell]
    have none : Tree.idle.orphan config.backend = .idle := by simp [Tree.orphan]
    rw [show ({} : Cell).tree = .idle from rfl, none] at isTree
    obtain rfl | rfl := isTree <;> rfl
  | settled _ _ _ _ _ _ _ _ _ cell => exact cell.trans blank
  | watched recovery task completed phase point named row cell =>
    have started := visited recovery task completed phase point
    rw [named] at started
    exact absurd (started_grows changes started) fresh
  | closed _ _ chain => exact resolve (closes_idle chain (.inl blank))
  | confirmed _ _ _ _ result _ _ stepped view =>
    have cell : t.cells.get id = result.1.cell := congrArg View.cell view
    rw [cell, cell_confirmStep stepped]
    exact blank

theorem Owns.idle_step (owns : Owns s) (stepped : Step config s act t) (agrees : Agrees t.db id)
    (fresh : ¬ t.db.Started id) : t.cells.get id = {} := by
  have changes : Changes (fun _ => True) s.db t.db := changes_step stepped (fun _ _ => trivial)
  refine LocalFlow.idle_step stepped agrees fresh
    (owns.idle id (fun started => fresh (started_grows changes started))) ?_
  intro recovery task completed phase point
  have grounded := owns.phase
  rw [phase] at grounded
  have learnt := grounded.2
  rw [point] at learnt
  exact learnt.1

theorem phase_tick (cutoff : String) (faults : Option Nat) :
    (s.tick config cutoff faults).phase = s.phase := by
  have turned : (s.turn config cutoff faults).state.phase = s.phase := by
    unfold System.turn
    dsimp only
    split <;> rfl
  unfold System.tick
  dsimp only
  split <;> exact turned

theorem phase_serving (serving : s.phase = .serving) (stepped : Step config s act t) :
    t.phase = .serving ∨ t.phase = .down ∨
      ∃ timeout, t.phase = .closing (.awaitingScheduler timeout) := by
  unfold Step step at stepped
  rw [serving] at stepped
  split at stepped
  · obtain ⟨slot, _, rfl⟩ := Option.map_eq_some_iff.mp stepped
    exact .inl serving
  · unfold System.submit at stepped
    split at stepped
    · obtain ⟨db, _, rfl⟩ := Option.map_eq_some_iff.mp stepped
      exact .inl serving
    · cases stepped
  · unfold System.submitBatch at stepped
    split at stepped
    · obtain ⟨result, _, rfl⟩ := Option.map_eq_some_iff.mp stepped
      exact .inl serving
    · cases stepped
  · cases stepped
    exact .inl serving
  · cases stepped
    exact .inl serving
  · split at stepped <;> cases stepped
    exact .inl rfl
  · split at stepped <;> cases stepped
    exact .inl ((phase_tick _ _).trans serving)
  · rename_i impossible
    cases impossible
  · cases stepped
    exact .inr (.inl rfl)
  · cases stepped
    exact .inr (.inl rfl)
  · rename_i impossible
    cases impossible
  · rename_i impossible
    cases impossible
  · cases stepped
    exact .inr (.inr ⟨_, rfl⟩)
  · rename_i impossible
    cases impossible
  · cases stepped

theorem grounded_confirmNext (exited todo : List TaskId) :
    (s.confirmNext exited todo).phase.Grounded t := by
  induction todo generalizing exited with
  | nil => trivial
  | cons head rest ih =>
    unfold System.confirmNext
    split
    · trivial
    · exact ih _
    · rename_i confirm awaiting
      obtain ⟨_, rfl⟩ := confirmLoop_awaiting awaiting
      trivial

theorem grounded_killNext (delivered todo : List TaskId) :
    (s.killNext delivered todo).phase.Grounded t := by
  unfold System.killNext
  split
  · exact grounded_confirmNext _ _
  · split <;> trivial

theorem grounded_forceAll : s.forceAll.phase.Grounded t := by
  unfold System.forceAll
  dsimp only
  split
  · trivial
  · exact grounded_killNext _ _

theorem grounded_awaitExits (deadline : Seconds) : (s.awaitExits deadline).phase.Grounded t := by
  unfold System.awaitExits
  split
  · split <;> trivial
  · exact grounded_forceAll

theorem Owns.closing_step (owns : Owns s) (systemd : config.backend = .systemd) {shutdown : Shutdown}
    {a : ShutdownAct} (phase : s.phase = .closing shutdown)
    (stepped : s.shutdownStep config shutdown a = some t) : t.phase.Grounded t := by
  unfold System.shutdownStep at stepped
  split at stepped
  · split at stepped <;> cases stepped <;> trivial
  · split at stepped
    · obtain ⟨⟨drained, raised⟩, _, rfl⟩ := Option.map_eq_some_iff.mp stepped
      dsimp only
      split
      · trivial
      · exact grounded_awaitExits _
    · cases stepped
  · split at stepped <;> cases stepped
    exact grounded_awaitExits _
  · split at stepped <;> cases stepped
    exact grounded_killNext _ _
  · cases stepped
    exact grounded_killNext _ _
  · cases stepped
    trivial
  · rename_i exited target todo confirm a
    obtain ⟨⟨slot, result⟩, confirming, rfl⟩ := Option.map_eq_some_iff.mp stepped
    have grounded := owns.phase
    rw [phase] at grounded
    have cell : slot.cell = s.cells.get target := cell_confirmStep confirming
    dsimp only
    split
    · rename_i after
      have before : confirm.Grounded (s.slot target).cell := grounded
      have learnt := before.step systemd (owns.owned target).recorded confirming
      change after.Grounded (((s.put target slot).closing _).cells.get target)
      simp only [System.closing, System.put, Dict.get_set, if_true, cell]
      exact learnt
    · exact grounded_confirmNext _ _
    · trivial
  · cases stepped

/-- A recovered task that has been settled leaves the rest of the page as it was. -/
theorem grounded_settleRecovered {state : TaskState} {fields : List Field}
    {override : Option TaskStatus}
    {extra : Option String} (todo : ∀ task ∈ recovery.todo, Paged t task) :
    (s.settleRecovered config recovery id state fields override extra).phase.Grounded t := by
  unfold System.settleRecovered
  split
  · trivial
  · exact ⟨todo, trivial⟩

theorem grounded_recoverResume {task : TaskRecord} {completed : Option Int} {running : Bool}
    (todo : ∀ task ∈ recovery.todo, Paged t task)
    (free : completed.isSome → running = false → Over (t.cells.get task.id)) :
    (s.recoverResume config recovery task completed running).phase.Grounded t := by
  unfold System.recoverResume
  split
  · exact ⟨todo, free rfl rfl⟩
  · exact ⟨todo, trivial⟩
  · split <;> exact grounded_settleRecovered todo

theorem grounded_recoverEvaluated {task : TaskRecord} {code : Int} {verdict : Verdict}
    (todo : ∀ task ∈ recovery.todo, Paged t task) :
    (s.recoverEvaluated config recovery task code verdict).phase.Grounded t := by
  unfold System.recoverEvaluated
  dsimp only
  split
  · trivial
  · exact grounded_settleRecovered todo

theorem grounded_recoverFinish {receiptFails : Bool} {cutoff : String} {faults : Option Nat} :
    (s.recoverFinish config recovery receiptFails cutoff faults).phase.Grounded t := by
  unfold System.recoverFinish
  split
  · trivial
  · dsimp only
    split <;> trivial

theorem Owns.recoverNext_step (owns : Owns s) (keeps : Keeps s t)
    (todo : ∀ task ∈ recovery.todo, Paged t task) (point : recovery.point = .next)
    (stepped : s.recoverNext config recovery = some t) : t.phase.Grounded t := by
  unfold System.recoverNext at stepped
  split at stepped
  · obtain ⟨key, _, rfl⟩ := Option.map_eq_some_iff.mp stepped
    refine ⟨fun task member => keeps.listed (owns.listed member), ?_⟩
    dsimp only
    rw [point]
    trivial
  · rename_i task rest isTodo
    rw [isTodo] at todo
    have later : ∀ task ∈ rest, Paged t task :=
      fun other member => todo other (List.mem_cons_of_mem _ member)
    dsimp only at stepped
    split at stepped
    · cases stepped
      exact grounded_settleRecovered later
    · split at stepped <;> cases stepped
      · trivial
      · exact ⟨later, todo task List.mem_cons_self⟩

theorem Owns.recovering_step (owns : Owns s) (systemd : config.backend = .systemd) {a : RecoverAct}
    (warranted : Warranted config s (.recover a)) (phase : s.phase = .recovering recovery)
    (keeps : Keeps s t) (stepped : s.recoverStep config recovery a = some t) : t.phase.Grounded t := by
  have grounded := owns.phase
  rw [phase] at grounded
  obtain ⟨listed, learnt⟩ := grounded
  have todo : ∀ task ∈ recovery.todo, Paged t task :=
    fun task member => keeps.listed (listed task member)
  unfold System.recoverStep at stepped
  split at stepped
  · rename_i point
    exact owns.recoverNext_step keeps todo point stepped
  · rename_i task completed point
    cases stepped
    refine ⟨todo, ?_⟩
    rw [point] at learnt
    obtain ⟨started, recorded⟩ := learnt
    change RecoveryPoint.Grounded _ (.probing task completed (some _))
    cases answer : isRunning config.backend task.executorRef (s.cells.get task.id).tree with
    | true =>
      simp only [isRunning, systemd, Bool.and_eq_true] at answer
      refine ⟨started, recorded.resolve_left (fun blind => ?_)⟩
      unfold TaskRecord.Blind at blind
      rw [answer.1] at blind
      cases blind
    | false =>
      simp only [isRunning, systemd, Bool.and_eq_false_iff] at answer
      obtain blind | known := recorded
      · exact .inl blind
      · exact answer.imp (fun blind => blind) (fun owns => ⟨known, owns⟩)
  · cases stepped
    trivial
  · rename_i task completed running point
    cases stepped
    rw [point] at learnt
    refine grounded_recoverResume todo (fun _ stopped => keeps.free _ ?_)
    subst stopped
    exact learnt.elim (warranted.blind _ _ (concludes_recover phase point)) (fun free => free)
  · cases stepped
    exact grounded_recoverEvaluated todo
  · split at stepped <;> cases stepped
    exact grounded_recoverFinish
  · cases stepped

theorem Owns.phase_step (owns : Owns s) (systemd : config.backend = .systemd)
    (warranted : Warranted config s act) (stepped : Step config s act t) : t.phase.Grounded t := by
  by_cases serving : s.phase = .serving
  · obtain phase | phase | ⟨timeout, phase⟩ := phase_serving serving stepped <;> rw [phase] <;> trivial
  have keeps := keeps_step systemd stepped serving
  have same : t.phase = s.phase → t.phase.Grounded t := fun same => by
    rw [same]
    exact keeps.phase owns.phase
  unfold Step step at stepped
  split at stepped
  · obtain ⟨slot, _, rfl⟩ := Option.map_eq_some_iff.mp stepped
    exact same rfl
  · rename_i impossible
    exact absurd impossible serving
  · rename_i impossible
    exact absurd impossible serving
  · rename_i impossible
    exact absurd impossible serving
  · cases stepped
    exact same rfl
  · split at stepped <;> cases stepped
    exact same rfl
  · rename_i impossible
    exact absurd impossible serving
  · split at stepped <;> cases stepped
    exact same rfl
  · cases stepped
    trivial
  · cases stepped
    trivial
  · cases stepped
    exact ⟨fun task member => keeps.listed (owns.listed member), trivial⟩
  · rename_i phase
    exact owns.recovering_step systemd warranted phase keeps stepped
  · rename_i impossible
    exact absurd impossible serving
  · rename_i phase
    exact owns.closing_step systemd phase stepped
  · cases stepped

theorem Owns.step (systemd : config.backend = .systemd) (owns : Owns s)
    (warranted : Warranted config s act) (stepped : Step config s act t) : Owns t := by
  have changes : Changes (fun _ => True) s.db t.db := changes_step stepped (fun _ _ => trivial)
  have agrees := fun id => changes.agrees id (owns.agrees id)
  exact {
    agrees
    unreferenced := changes.unreferenced owns.unreferenced
    idle := fun id => owns.idle_step stepped (agrees id)
    owned := owns.owned_step systemd warranted stepped
    phase := owns.phase_step systemd warranted stepped }

end Steps
section Runs
variable {acts : List Act} {boot wall : String} {receipt : Receipt}

theorem owns_initial : Owns (System.initial boot wall receipt) where
  agrees := agrees_empty
  unreferenced _ _ found := by cases found
  idle _ _ := rfl
  owned _ := over_fresh.owned
  phase := trivial

/-- With the systemd executor, no task that has ended owns a process, in any run whose steps end no
task on the strength of a record without a unit unless it has none. -/
theorem ended_owns_nothing (systemd : config.backend = .systemd)
    (run : Run (Guarded (Step config) (Warranted config)) (.initial boot wall receipt) acts t)
    (id : TaskId) (row : TaskRecord) (found : t.db.getTask id = some row)
    (ended : row.state.terminal = true) : (t.cells.get id).tree.owns = false := by
  have owns : Owns t := run.invariant
    (fun owns stepped => Owns.step systemd owns stepped.2 stepped.1) owns_initial
  refine ((owns.owned id).inactive (fun other same => ?_)).owns
  have isRow : t.db.getTask id = some other := same
  rw [found] at isRow
  cases isRow
  revert ended
  cases row.state <;> simp [TaskState.terminal, TaskState.active]

theorem warranted_quiet (concludes : act.concludes config s = none) (presumes : act.presumes s = none) :
    Warranted config s act where
  blind _ _ same := by
    rw [concludes] at same
    cases same
  restarted _ same := by
    rw [presumes] at same
    cases same

/-- A unit that ran to its end. -/
def ownedUnit : List Act :=
  firstStart ++ [.submit "a" (.keyed []), .tick "" none, .task "a" .startBegin, .task "a" .accept,
    .task "a" (.startReturn 1), .task "a" .waitBegin, .task "a" (.exit (.code 0)),
      .task "a" .waitReturn,
    .task "a" (.waitEvaluated .nothing)]

theorem ended_owns_nothing_unit : ∃ t row,
    Run (Guarded (Step (.plain .systemd)) (Warranted (.plain .systemd)))
      (.initial "boot" "2026" .missing) ownedUnit t ∧
    t.db.getTask "a" = some row ∧ row.state = .succeeded ∧ (t.cells.get "a").tree.owns = false := by
  have ended : (steps (.plain .systemd) (.initial "boot" "2026" .missing) ownedUnit).any (fun t =>
      (t.db.getTask "a").any (fun row => row.state = .succeeded)) = true := by decide +kernel
  obtain ⟨t, ran, last⟩ := Option.any_eq_true _ _ |>.mp ended
  obtain ⟨row, found, state⟩ := Option.any_eq_true _ _ |>.mp last
  have succeeded : row.state = .succeeded := of_decide_eq_true state
  have quiet : ∀ act ∈ ownedUnit, ∀ s,
      act.concludes (.plain .systemd) s = none ∧ act.presumes s = none := by
    unfold ownedUnit firstStart
    simp only [List.cons_append, List.nil_append, List.forall_mem_cons]
    exact ⟨fun _ => ⟨rfl, rfl⟩, fun _ => ⟨rfl, rfl⟩, fun _ => ⟨rfl, rfl⟩, fun _ => ⟨rfl, rfl⟩,
      fun _ => ⟨rfl, rfl⟩, fun _ => ⟨rfl, rfl⟩, fun _ => ⟨rfl, rfl⟩, fun _ => ⟨rfl, rfl⟩,
      fun _ => ⟨rfl, rfl⟩, fun _ => ⟨rfl, rfl⟩, fun _ =>
        ⟨rfl, rfl⟩, fun _ impossible => by cases impossible⟩
  have run := guarded_run
    (fun act member s => warranted_quiet (quiet act member s).1 (quiet act member s).2) ran
  exact ⟨t, row, run, found, succeeded,
    ended_owns_nothing rfl run "a" row found (by rw [succeeded]; rfl)⟩

/-- The controller dies between the launch of a unit and the record of its reference; the next one
gives the task up while the unit runs. -/
def orphanedUnit : List Act :=
  firstStart ++ [.submit "a" (.keyed []), .tick "" none, .task "a" .startBegin, .task "a" .accept,
    .crash, .recoverBegin true, .recover .next, .recover .query, .recover .resume]

theorem lost_while_running : ∃ t row,
    Run (Step (.plain .systemd)) (.initial "boot" "2026" .missing) orphanedUnit t ∧
    t.db.getTask "a" = some row ∧ row.state = .lost ∧ (t.cells.get "a").tree.owns = true := by
  have lost : (steps (.plain .systemd) (.initial "boot" "2026" .missing) orphanedUnit).any (fun t =>
      (t.db.getTask "a").any (fun row => row.state = .lost) && (t.cells.get "a").tree.owns) = true := by
    decide +kernel
  obtain ⟨t, ran, both⟩ := Option.any_eq_true _ _ |>.mp lost
  obtain ⟨last, owns⟩ := Bool.and_eq_true _ _ |>.mp both
  obtain ⟨row, found, state⟩ := Option.any_eq_true _ _ |>.mp last
  exact ⟨t, row, steps_run ran, found, of_decide_eq_true state, owns⟩

end Runs
end LocalFlow
