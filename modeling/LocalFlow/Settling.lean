import LocalFlow.Descent
import LocalFlow.Library.Fairness
import LocalFlow.Loop

/-! A shutdown comes to its end: a fair execution does not stay at any stage of it but the last, at
which every task has ended. -/
namespace LocalFlow
open Transition
variable {config : Config} {s t : System} {act : Act} {id : TaskId} {slot next : Slot} {moment : Moment}

section Parties

def TaskAct.starts : TaskAct → Bool
  | .startBegin | .startReturn _ | .startRaise => true
  | _ => false

def TaskAct.waits : TaskAct → Bool
  | .waitBegin | .waitReturn | .waitRaise | .waitQuery | .waitQueryRaise | .waitResume | .waitRetry
  | .waitEvaluated _ => true
  | _ => false

/-- Who takes the steps of the controller while it shuts down. -/
inductive Party where
  | loop
  | starter (id : TaskId)
  | waiter (id : TaskId)
  | stop (id : TaskId)
  | shutdown

def Party.takes : Party → Act → Prop
  | .loop, act => act = .loopEnd
  | .starter id, act => ∃ a, act = .task id a ∧ a.starts = true
  | .waiter id, act => ∃ a, act = .task id a ∧ a.waits = true
  | .stop id, act => ∃ a, act = .task id (.stop a)
  | .shutdown, act => ∃ a, act = .closing a

/-- A party that is not suspended. -/
def Party.able (config : Config) (party : Party) (s : System) : Prop :=
  ∃ act t, party.takes act ∧ Step config s act t

/-- A step of a task is one of its starter or of its waiter, or leaves both alone. -/
theorem taskStep_parts {a : TaskAct} (stepped : slot.taskStep config moment id a = some next) :
    a.starts = true ∧ slot.startStep config moment id slot.cell.starter a = some next ∨
    a.waits = true ∧ slot.waitStep config moment id slot.cell.waiter a = some next ∨
    a.starts = false ∧ a.waits = false ∧ next.cell.starter = slot.cell.starter ∧
      next.cell.waiter = slot.cell.waiter := by
  unfold Slot.taskStep at stepped
  split at stepped
  all_goals first
    | exact .inl ⟨rfl, stepped⟩
    | exact .inr (.inl ⟨rfl, stepped⟩)
    | (obtain ⟨tree, _, rfl⟩ := Option.map_eq_some_iff.mp stepped
       exact .inr (.inr ⟨rfl, rfl, rfl, rfl⟩))
    | skip
  obtain ⟨sequence, _, stopped⟩ := Option.bind_eq_some_iff.mp stepped
  obtain ⟨_, isCell⟩ := (stops_stopStep stopped).cell
  exact .inr (.inr ⟨rfl, rfl, by rw [isCell], by rw [isCell]⟩)

theorem starter_waitStep {waiter : Option Waiter} {a : TaskAct}
    (stepped : slot.waitStep config moment id waiter a = some next) :
    next.cell.starter = slot.cell.starter := by
  obtain ⟨_, _, isCell, _⟩ := (waited_waitStep stepped).cell
  rw [isCell]

/-- A starter that is gone does not come back while it is not created again. -/
theorem starter_gone {a : TaskAct} (gone : slot.cell.starter = none)
    (stepped : slot.taskStep config moment id a = some next) :
    next.cell.starter = none ∧ (a.waits = false → next.cell.waiter = slot.cell.waiter) := by
  obtain ⟨_, started⟩ | ⟨waits, waited⟩ | ⟨_, _, starter, waiter⟩ := taskStep_parts stepped
  · rw [gone] at started
    cases a <;> cases started
  · exact ⟨(starter_waitStep waited).trans gone, fun other => by rw [waits] at other; cases other⟩
  · exact ⟨starter.trans gone, fun _ => waiter⟩

/-- The launch has been answered, one way or the other. -/
def Tree.launched (tree : Tree) : Bool := tree.answered || tree.failed

theorem launched_treeStep {a : TaskAct} {tree : Tree} (moved : slot.treeStep config a = some tree) :
    tree.launched = true := by
  unfold Slot.treeStep at moved
  split at moved
  all_goals first
    | cases moved
    | (split at moved
       · cases moved
         rfl
       · cases moved)

theorem launched_of_answered {tree : Tree} (busy : tree ≠ .idle) (answered : tree ≠ .requested) :
    tree.launched = true := by
  revert busy answered
  cases tree <;> simp [Tree.launched, Tree.answered, Tree.failed]

/-- An answered launch stays so up to the end of its starter. -/
theorem launched_taskStep {a : TaskAct} {task : TaskRecord} (launched : slot.cell.tree.launched = true)
    (awaited : slot.cell.starter = some (.launching task))
    (stepped : slot.taskStep config moment id a = some next) :
    next.cell.starter = none ∨ next.cell.tree.launched = true := by
  cases steps_taskStep stepped with
  | tree tree moved => exact .inr (launched_treeStep moved)
  | start started =>
    rw [awaited] at started
    unfold Slot.startStep at started
    split at started
    · rename_i impossible
      cases impossible
    · split at started <;> cases started
      unfold Slot.startReturn
      split <;> exact .inl rfl
    · split at started <;> cases started
      exact .inl rfl
    · cases started
  | wait waited =>
    obtain ⟨_, tree, isCell, isTree⟩ := (waited_waitStep waited).cell
    rw [isCell]
    refine .inr ?_
    change tree.launched = true
    obtain rfl | rfl := isTree
    · exact launched
    · revert launched
      cases slot.cell.tree <;> cases config.backend <;> simp [Tree.launched, Tree.collect,
        Tree.answered, Tree.failed]
  | stop sequence isSequence stopped =>
    obtain ⟨_, isCell⟩ := (stops_stopStep stopped).cell
    rw [isCell]
    exact .inr launched

end Parties

section Waiters

theorem startStep_created {a : TaskAct}
    (stepped : slot.startStep config moment id (some .created) a = some next) :
    next.cell.starter ≠ some .created := by
  cases a <;> cases stepped
  unfold Slot.startBegin
  split <;> simp [Slot.withStarter]

theorem startStep_launching {task : TaskRecord} {a : TaskAct}
    (stepped : slot.startStep config moment id (some (.launching task)) a = some next) :
    next.cell.starter = none := by
  unfold Slot.startStep at stepped
  split at stepped
  · rename_i impossible
    cases impossible
  · split at stepped <;> cases stepped
    unfold Slot.startReturn
    split <;> rfl
  · split at stepped <;> cases stepped
    rfl
  · cases stepped

/-- A launch that has been answered can be taken up. -/
theorem startStep_able {task : TaskRecord} (launched : slot.cell.tree.launched = true) :
    ∃ a next, a.starts = true ∧
      slot.startStep config moment id (some (.launching task)) a = some next := by
  cases tree : slot.cell.tree with
  | idle | requested =>
    rw [tree] at launched
    cases launched
  | refused => exact ⟨.startRaise, _, rfl, if_pos (by rw [tree]; rfl)⟩
  | alive | gone => exact ⟨.startReturn 0, _, rfl, if_pos (by rw [tree]; rfl)⟩

/-- Nothing runs and nothing is asked for, and the exit record can be read. -/
def Tree.rests (tree : Tree) : Bool := !tree.owns && !tree.pending && decide (tree.record ≠ .unreadable)

/-- How far a waiter is from its end once the process tree is at rest. -/
def Waiter.rank : Waiter → Nat
  | .evaluating _ _ => 0
  | .probing _ _ (some false) => 1
  | .probing _ _ none => 2
  | .waiting _ => 3
  | .created => 4
  | .backoff _ _ => 5
  | .probing _ _ (some true) => 6

theorem rests_readable {tree : Tree} (rests : tree.rests = true) (backend : Backend) :
    ∃ completed, completedCode backend tree = some completed := by
  cases backend <;> cases tree <;> simp [Tree.rests, completedCode, Tree.owns, Tree.pending,
    Tree.record] at rests ⊢
  all_goals
    rename_i record
    cases record <;> simp at rests ⊢

theorem rests_stopped {tree : Tree} (rests : tree.rests = true) (backend : Backend)
    (reference : Option String) :
    isRunning backend reference tree = false := by
  have idle : tree.owns = false := by
    simp only [Tree.rests, Bool.and_eq_true, Bool.not_eq_true'] at rests
    exact rests.1.1
  cases backend <;> simp [isRunning, idle]

theorem collected_rank (code : Int) {bound : Nat} (positive : 0 < bound) {waiter : Waiter}
    (left : (slot.collected id code).cell.waiter = some waiter) : waiter.rank < bound := by
  unfold Slot.collected at left
  split at left
  · cases left
  · split at left <;> cases left
    exact positive

/-- Once the tree is at rest every step of a waiter brings it closer to its end. -/
theorem waitStep_rank {waiter after : Waiter} {a : TaskAct} (rests : slot.cell.tree.rests = true)
    (answered : a ≠ .waitQueryRaise)
    (stepped : slot.waitStep config moment id (some waiter) a = some next)
    (left : next.cell.waiter = some after) : after.rank < waiter.rank := by
  obtain ⟨completed, read⟩ := rests_readable rests config.backend
  unfold Slot.waitStep at stepped
  split at stepped
  · rename_i same
    cases same
    cases stepped
    cases left
    simp [Waiter.rank]
  · rename_i same
    cases same
    split at stepped <;> cases stepped
    exact collected_rank _ (by simp [Waiter.rank]) left
  · rename_i same
    cases same
    cases stepped
    unfold Slot.waitRaise at left
    dsimp only at left
    split at left <;> cases left
    simp [Waiter.rank]
  · rename_i current same
    cases same
    cases stepped
    cases left
    rw [rests_stopped rests]
    simp [Waiter.rank]
  · exact absurd rfl answered
  · rename_i running same
    cases same
    cases stepped
    unfold Slot.waitResume at left
    rw [read] at left
    dsimp only at left
    split at left
    · rename_i runs
      subst runs
      cases left
      simp [Waiter.rank]
    · rename_i stopped
      have isRunning : running = false := by simpa using stopped
      subst isRunning
      split at left
      · exact collected_rank _ (by simp [Waiter.rank]) left
      · cases left
  · rename_i same
    cases same
    split at stepped <;> cases stepped
    cases left
    simp [Waiter.rank]
  · rename_i task code evaluation same
    cases stepped
    have gone : (slot.waitEvaluated moment id task code
      (evaluateResult config.hasEvaluator task code evaluation)).cell.waiter =
        none := by rw [cell_waitEvaluated]
    cases gone.symm.trans left
  · cases stepped

/-- A waiter that is not asleep can go on. -/
theorem waitStep_able (waiter : Waiter)
    (awake : ∀ failures wake, waiter = .backoff failures wake → wake ≤ moment.monotonic) :
    ∃ a next, a.waits = true ∧ slot.waitStep config moment id (some waiter) a = some next := by
  cases waiter with
  | created => exact ⟨.waitBegin, _, rfl, rfl⟩
  | waiting => exact ⟨.waitRaise, _, rfl, rfl⟩
  | probing failures current answer =>
    cases answer with
    | none => exact ⟨.waitQuery, _, rfl, rfl⟩
    | some => exact ⟨.waitResume, _, rfl, rfl⟩
  | backoff failures wake => exact ⟨.waitRetry, _, rfl, if_pos (awake failures wake rfl)⟩
  | evaluating task code => exact ⟨.waitEvaluated .nothing, _, rfl, rfl⟩

theorem waits_taskStep {a : TaskAct} (waits : a.waits = true) (slot : Slot) :
    slot.taskStep config moment id a = slot.waitStep config moment id slot.cell.waiter a := by
  cases a <;> first | rfl | cases waits

theorem starts_taskStep {a : TaskAct} (starts : a.starts = true) (slot : Slot) :
    slot.taskStep config moment id a = slot.startStep config moment id slot.cell.starter a := by
  cases a <;> first | rfl | cases starts

end Waiters

section Frames

theorem cell_interrupt (moment : Moment) (id : TaskId) (slot : Slot) (sigint sigterm : Grace) :
    ∃ sequence, (slot.interrupt moment id sigint sigterm).1.cell = { slot.cell with sequence } := by
  have interrupts := interrupts_interrupt moment id slot sigint sigterm
  generalize (slot.interrupt moment id sigint sigterm).1 = next at interrupts
  generalize (slot.interrupt moment id sigint sigterm).2 = raised at interrupts
  cases interrupts with
  | missing => exact ⟨slot.cell.sequence, rfl⟩
  | queued _ cell | hidden _ _ _ _ _ _ cell => exact ⟨slot.cell.sequence, cell⟩
  | stopping _ _ _ _ _ _ _ _ _ cell | advanced _ _ _ _ _ cell => exact ⟨_, cell⟩

theorem cell_closes {v w : View} (closes : Relation.ReflTransGen (Closes id) v w) :
    ∃ sequence, w.cell = { v.cell with sequence } := by
  induction closes with
  | refl => exact ⟨v.cell.sequence, rfl⟩
  | tail _ last ih =>
    obtain ⟨before, isCell⟩ := ih
    cases last with
    | asked slot moment sigint sigterm =>
      obtain ⟨sequence, cell⟩ := cell_interrupt moment id slot sigint sigterm
      exact ⟨sequence, by rw [show (Slot.view _ id).cell = _ from cell, show slot.cell = _ from isCell]⟩
    | cancelled view => exact ⟨_, by rw [isCell]⟩
    | forced view => exact ⟨before, isCell⟩

/-- While the controller shuts down, a step is the task's own or leaves its tree, its starter and
its waiter. Its stop is left alone too, unless the step is one of the shutdown. -/
theorem shutting_cell {shutdown : Shutdown} (phase : s.phase = .closing shutdown)
    (survives : act.survives = true)
    (stepped : Step config s act t) (id : TaskId) :
    (∃ a slot, act = .task id a ∧ (s.slot id).taskStep config (s.moment id) id a = some slot ∧
      t.cells.get id = slot.cell ∧ t.db.getTask id = slot.db.getTask id) ∨
    (∀ a, act ≠ .task id a) ∧ (∃ sequence, t.cells.get id = { s.cells.get id with sequence }) ∧
      ((∀ a, act ≠ .closing a) → t.cells.get id = s.cells.get id) := by
  obtain ⟨target, a, slot, rfl, moved, rfl⟩ | ⟨other, _, _, cells, _⟩ | ⟨a, rfl, closed⟩ :=
    shutting_step phase survives stepped
  · by_cases here : id = target
    · subst here
      have view := @view_put s id slot
      exact .inl ⟨a, slot, rfl, moved, congrArg View.cell view, congrArg View.row view⟩
    · have same : ((s.put target slot).cells.get id) = s.cells.get id := by simp [System.put, here]
      exact .inr ⟨fun b same => here (by cases same; rfl), ⟨(s.cells.get id).sequence, same⟩,
        fun _ => same⟩
  · exact .inr ⟨other id, ⟨(s.cells.get id).sequence, by rw [cells]⟩, fun _ => by rw [cells]⟩
  · refine .inr ⟨by simp, ?_, fun elsewhere => absurd rfl (elsewhere a)⟩
    have closes := @closes_shutdownStep config s t id shutdown a closed
    obtain chain | ⟨_, _, _, _, result, _, _, confirming, view⟩ := closes
    · exact cell_closes chain
    · have cell : t.cells.get id = result.1.cell := congrArg View.cell view
      exact ⟨(s.cells.get id).sequence, cell.trans (cell_confirmStep confirming)⟩

/-- The clock does not go back. -/
theorem monotonic_step {shutdown : Shutdown} (phase : s.phase = .closing shutdown)
    (survives : act.survives = true)
    (stepped : Step config s act t) : s.monotonic ≤ t.monotonic := by
  obtain ⟨target, a, slot, rfl, moved, rfl⟩ | ⟨_, _, _, _, _, later, _⟩ | ⟨a, rfl, closed⟩ :=
    shutting_step phase survives stepped
  · exact le_rfl
  · exact later
  · exact (frame_shutdownStep (fun _ _ _ _ => rfl) closed : t.monotonic = s.monotonic).ge

end Frames

/-- No call of a tick fails, every row can be shown, every evaluated result encoded and every signal of
the forced stage delivered, and no launch is refused after a stop of its task was requested. -/
structure Mindful (config : Config) (s : System) (act : Act) :
    Prop extends Faultless config s act, Minding s act

/-- Besides, the controller and its host live on. -/
structure Unhindered (config : Config) (s : System) (act : Act) :
    Prop extends Mindful config s act where
  survives : act.survives = true

section Executions
variable {e : Execution (Guarded (Step config) (Unhindered config))}

/-- What a shutdown relies on to come to its end: whoever can go on does so sooner or later, the clock
does not stand still, launches are answered, the waiters' questions to the executor are answered after
some time, and a tree that is sent its SIGKILL comes to rest. -/
structure Fairly (e : Execution (Guarded (Step config) (Unhindered config))) : Prop where
  resumed : ∀ party : Party, e.Fair party.takes (party.able config)
  clock : ∀ time, ∃ n, time ≤ (e.state n).monotonic
  answered : ∀ n id, ((e.state n).cells.get id).tree = .requested →
    ∃ m, n ≤ m ∧ ((e.state m).cells.get id).tree ≠ .requested
  probed : ∃ n, ∀ m, n ≤ m → ∀ id, e.label m ≠ .task id .waitQueryRaise
  killed : ∀ n delivered id todo, (e.state n).phase = .closing (.killing delivered id todo) →
    e.label n = .closing .killed → e.Settles (fun s => (s.cells.get id).tree.rests = true)

theorem able_task (n : Nat) {party : Party} {a : TaskAct} {slot : Slot}
    (takes : party.takes (.task id a))
    (stepped : ((e.state n).slot id).taskStep config ((e.state n).moment id) id a = some slot) :
    party.able config (e.state n) :=
  ⟨.task id a, _, takes, show Option.map _ _ = some _ by rw [stepped, Option.map_some]⟩

theorem able_loop {n : Nat} {shutdown : Shutdown} (phase : (e.state n).phase = .closing shutdown)
    (live : (e.state n).loop = .live) : Party.loop.able config (e.state n) := by
  have ends : ∃ t, Step config (e.state n) .loopEnd t := by
    unfold Step step
    rw [phase]
    exact ⟨_, if_pos live⟩
  obtain ⟨t, stepped⟩ := ends
  exact ⟨.loopEnd, t, rfl, stepped⟩

theorem able_closing {n : Nat} {shutdown : Shutdown} {a : ShutdownAct}
    (phase : (e.state n).phase = .closing shutdown)
    (stepped : ((e.state n).shutdownStep config shutdown a).isSome = true) :
    Party.shutdown.able config (e.state n) := by
  obtain ⟨t, closed⟩ := Option.isSome_iff_exists.mp stepped
  refine ⟨.closing a, t, ⟨a, rfl⟩, ?_⟩
  unfold Step step
  rw [phase]
  exact closed

/-- Every launch is answered. -/
theorem Fairly.replies (fairly : Fairly e) (n : Nat) (id : TaskId) :
    ∃ k, n ≤ k ∧ ((e.state k).cells.get id).tree ≠ .requested := by
  by_cases requested : ((e.state n).cells.get id).tree = .requested
  · exact fairly.answered n id requested
  · exact ⟨n, le_rfl, requested⟩

/-- What holds at every instant of a shutdown. -/
structure Winding (e : Execution (Guarded (Step config) (Unhindered config))) : Prop where
  prepared : ∀ n, Prepared (e.state n)
  begins : ∃ timeout, (e.state 0).phase = .closing (.awaitingScheduler timeout)
  closing : ∀ n, ∃ shutdown, (e.state n).phase = .closing shutdown ∧
    shutdown.Winds (fun _ => False) (e.state n).db
  lively : ∀ n, (e.state n).loop = .live ∨ (e.state n).loop = .finished

namespace Winding
variable (winding : Winding e)
include winding

theorem phase (n : Nat) : ∃ shutdown, (e.state n).phase = .closing shutdown := by
  obtain ⟨shutdown, phase, _⟩ := winding.closing n
  exact ⟨shutdown, phase⟩

theorem winds {n : Nat} {shutdown : Shutdown} (phase : (e.state n).phase = .closing shutdown) :
    shutdown.Winds (fun _ => False) (e.state n).db := by
  obtain ⟨other, isOther, winds⟩ := winding.closing n
  cases phase.symm.trans isOther
  exact winds

theorem cell (n : Nat) (id : TaskId) :
    (∃ a slot, e.label n = .task id a ∧
      ((e.state n).slot id).taskStep config ((e.state n).moment id) id a = some slot ∧
      (e.state (n + 1)).cells.get id = slot.cell ∧
      (e.state (n + 1)).db.getTask id = slot.db.getTask id) ∨
    (∀ a, e.label n ≠ .task id a) ∧
      (∃ sequence, (e.state (n + 1)).cells.get id = { (e.state n).cells.get id with sequence }) ∧
      ((∀ a, e.label n ≠ .closing a) → (e.state (n + 1)).cells.get id = (e.state n).cells.get id) := by
  obtain ⟨shutdown, phase⟩ := winding.phase n
  exact shutting_cell phase (e.next n).2.survives (e.next n).1 id

/-- A step is one of the shutdown, or the shutdown stays where it is. -/
theorem moves (n : Nat) :
    (∃ a shutdown, e.label n = .closing a ∧ (e.state n).phase = .closing shutdown ∧
      (e.state n).shutdownStep config shutdown a = some (e.state (n + 1))) ∨
    (∀ a, e.label n ≠ .closing a) ∧ (e.state (n + 1)).phase = (e.state n).phase := by
  obtain ⟨shutdown, phase⟩ := winding.phase n
  obtain ⟨_, _, _, isAct, _, after⟩ | ⟨_, other, _, _, same, _⟩ | ⟨a, isAct, closed⟩ :=
    shutting_step phase (e.next n).2.survives (e.next n).1
  · refine .inr ⟨fun a same => ?_, by rw [after]; rfl⟩
    cases isAct.symm.trans same
  · exact .inr ⟨other, same.trans phase.symm⟩
  · exact .inl ⟨a, shutdown, isAct, phase, closed⟩

theorem updates (n : Nat) : Updates (e.state n).db (e.state (n + 1)).db := by
  obtain ⟨shutdown, phase⟩ := winding.phase n
  obtain ⟨_, _, _, _, moved, after⟩ | ⟨_, _, db, _⟩ | ⟨_, _, closed⟩ :=
    shutting_step phase (e.next n).2.survives (e.next n).1
  · rw [after]
    exact (update_taskStep _ moved).updates
  · rw [db]
  · exact System.updates_shutdownStep closed

theorem ended_stays {n m : Nat} (ended : ¬ (e.state n).db.Pends id) (later : n ≤ m) :
    ¬ (e.state m).db.Pends id :=
  @Execution.stable _ _ _ _ _ e (fun s => ¬ s.db.Pends id)
    (fun n ended pends => ended ((winding.updates n).pends pends)) ended later

theorem clock_le {n m : Nat} (later : n ≤ m) : (e.state n).monotonic ≤ (e.state m).monotonic := by
  induction m, later using Nat.le_induction with
  | base => exact le_rfl
  | succ m _ ih =>
    obtain ⟨shutdown, phase⟩ := winding.phase m
    exact ih.trans (monotonic_step phase (e.next m).2.survives (e.next m).1)

theorem late (fairly : Fairly e) (n : Nat) (time : Seconds) :
    ∃ k, n ≤ k ∧ ∀ m, k ≤ m → time ≤ (e.state m).monotonic := by
  obtain ⟨k, reached⟩ := fairly.clock time
  exact ⟨max n k, le_max_left n k, fun m later =>
    reached.trans (winding.clock_le ((le_max_right n k).trans later))⟩

section Starters

theorem starter_stays (n : Nat) (gone : ((e.state n).cells.get id).starter = none) :
    ((e.state (n + 1)).cells.get id).starter = none := by
  obtain ⟨a, slot, _, moved, isCell, _⟩ | ⟨_, ⟨_, cell⟩, _⟩ := winding.cell n id
  · rw [isCell]
    exact (starter_gone (show ((e.state n).slot id).cell.starter = none from gone) moved).1
  · rw [cell]
    exact gone

/-- A starter that does not end asks for its launch. -/
theorem starter_begins (fairly : Fairly e) (never : ∀ n, ((e.state n).cells.get id).starter ≠ none) :
    ∃ n task, ((e.state n).cells.get id).starter = some (.launching task) := by
  by_contra none
  have created : ∀ n, ((e.state n).cells.get id).starter = some .created := by
    intro n
    cases starter : ((e.state n).cells.get id).starter with
    | none => exact absurd starter (never n)
    | some point =>
      cases point with
      | created => rfl
      | launching task => exact absurd ⟨n, task, starter⟩ none
  obtain ⟨m, _, a, isAct, starts⟩ := fairly.resumed (.starter id) 0 (fun m _ => by
    have begins : ((e.state m).slot id).taskStep config ((e.state m).moment id) id .startBegin =
        some (((e.state m).slot id).startBegin id) := by
      rw [starts_taskStep rfl, show ((e.state m).slot id).cell.starter = _ from created m]
      rfl
    exact able_task m ⟨.startBegin, rfl, rfl⟩ begins)
  obtain ⟨b, slot, isOwn, moved, isCell, _⟩ | ⟨other, _⟩ := winding.cell m id
  · cases isAct.symm.trans isOwn
    rw [starts_taskStep starts, show ((e.state m).slot id).cell.starter = _ from created m] at moved
    have begun := startStep_created moved
    rw [← isCell] at begun
    exact begun (created (m + 1))
  · exact other a isAct

/-- A starter that awaits its launch does so until it ends. -/
theorem launch_stays (n : Nat)
    (awaits : ∃ task, ((e.state n).cells.get id).starter = some (.launching task)) :
    ((e.state (n + 1)).cells.get id).starter = none ∨
      ∃ task, ((e.state (n + 1)).cells.get id).starter = some (.launching task) := by
  obtain ⟨task, awaited⟩ := awaits
  obtain ⟨a, slot, _, moved, isCell, _⟩ | ⟨_, ⟨_, cell⟩, _⟩ := winding.cell n id
  · rw [isCell]
    obtain ⟨_, started⟩ | ⟨_, waited⟩ | ⟨_, _, starter, _⟩ := taskStep_parts moved
    · rw [show ((e.state n).slot id).cell.starter = _ from awaited] at started
      exact .inl (startStep_launching started)
    · exact .inr ⟨task, (starter_waitStep waited).trans awaited⟩
    · exact .inr ⟨task, starter.trans awaited⟩
  · exact .inr ⟨task, by rw [cell]; exact awaited⟩

/-- The answer to a launch stays until its starter ends. -/
theorem launched_stays (n : Nat)
    (awaits : ∃ task, ((e.state n).cells.get id).starter = some (.launching task))
    (launched : ((e.state n).cells.get id).tree.launched = true) :
    ((e.state (n + 1)).cells.get id).starter = none ∨
    ((e.state (n + 1)).cells.get id).tree.launched = true := by
  obtain ⟨task, awaited⟩ := awaits
  obtain ⟨a, slot, _, moved, isCell, _⟩ | ⟨_, ⟨_, cell⟩, _⟩ := winding.cell n id
  · rw [isCell]
    exact launched_taskStep
      (show ((e.state n).slot id).cell.tree.launched = true from launched) awaited moved
  · rw [cell]
    exact .inr launched

/-- Every starter comes to its end. -/
theorem starter_ends (fairly : Fairly e) (id : TaskId) :
    e.Settles (fun s => (s.cells.get id).starter = none) := by
  by_contra unsettled
  have never : ∀ n, ((e.state n).cells.get id).starter ≠ none := fun n gone =>
    unsettled (Execution.settles_of_stable e winding.starter_stays gone)
  obtain ⟨n, task, awaited⟩ := winding.starter_begins fairly never
  have launching : ∀ m, n ≤ m →
    ∃ task, ((e.state m).cells.get id).starter = some (.launching task) := fun m later =>
    @Execution.stable _ _ _ _ _ e (fun s => ∃ task, (s.cells.get id).starter = some (.launching task))
      (fun m awaits => (winding.launch_stays m awaits).resolve_left (never (m + 1)))
        ⟨task, awaited⟩ later
  obtain ⟨k, later, answered⟩ := fairly.replies n id
  have launched : ∀ m, k ≤ m → ((e.state m).cells.get id).tree.launched = true := by
    intro m after
    induction m, after using Nat.le_induction with
    | base =>
      obtain ⟨task, awaited⟩ := launching k later
      exact launched_of_answered (((winding.prepared k).poised id).launching task awaited) answered
    | succ m after ih =>
      exact (winding.launched_stays m (launching m (later.trans after)) ih).resolve_left (never (m + 1))
  obtain ⟨m, after, a, isAct, starts⟩ := fairly.resumed (.starter id) k (fun m after => by
    obtain ⟨task, awaited⟩ := launching m (later.trans after)
    obtain ⟨a, slot, starts, stepped⟩ :=
      @startStep_able config id ((e.state m).slot id) ((e.state m).moment id) task (launched m after)
    have moved : ((e.state m).slot id).taskStep config ((e.state m).moment id) id a = some slot := by
      rw [starts_taskStep starts, show ((e.state m).slot id).cell.starter = _ from awaited]
      exact stepped
    exact able_task m ⟨a, rfl, starts⟩ moved)
  obtain ⟨task, awaited⟩ := launching m (later.trans after)
  obtain ⟨b, slot, isOwn, moved, isCell, _⟩ | ⟨other, _⟩ := winding.cell m id
  · cases isAct.symm.trans isOwn
    rw [starts_taskStep starts, show ((e.state m).slot id).cell.starter = _ from awaited] at moved
    have gone := startStep_launching moved
    rw [← isCell] at gone
    exact never (m + 1) gone
  · exact other a isAct

/-- No starter is left from some instant on. -/
theorem starters_end (fairly : Fairly e) :
    e.Settles (fun s => ∀ id, (s.cells.get id).starter = none) := by
  obtain ⟨k, gone⟩ := Execution.settles_all ((e.state 0).cells.entries.map Prod.fst)
    (fun id _ => winding.starter_ends fairly id)
  refine ⟨k, fun m later id => ?_⟩
  by_cases known : id ∈ (e.state 0).cells.entries.map Prod.fst
  · exact gone m later id known
  · have blank : (e.state 0).cells.get id = {} := Dict.get_of_not_mem _ known
    exact @Execution.stable _ _ _ _ _ e (fun s => (s.cells.get id).starter = none) winding.starter_stays
      (by rw [blank]) (Nat.zero_le m)

end Starters

section Waiters

/-- A step that is not the waiter's own leaves it alone once the starter is gone. -/
theorem waiter_still {n : Nat} (gone : ((e.state n).cells.get id).starter = none)
    (other : ¬ (Party.waiter id).takes (e.label n)) :
    ((e.state (n + 1)).cells.get id).waiter = ((e.state n).cells.get id).waiter := by
  obtain ⟨a, slot, isAct, moved, isCell, _⟩ | ⟨_, ⟨_, cell⟩, _⟩ := winding.cell n id
  · rw [isCell]
    refine (starter_gone (show ((e.state n).slot id).cell.starter = none from gone) moved).2 ?_
    simpa using fun waits => other ⟨a, isAct, waits⟩
  · rw [cell]

/-- A waiter whose task has come to rest goes on towards its end. -/
theorem waiter_goes {n : Nat} (rests : ((e.state n).cells.get id).tree.rests = true)
    (probed : ∀ id, e.label n ≠ .task id .waitQueryRaise)
    {waiter : Waiter} (watched : ((e.state n).cells.get id).waiter = some waiter)
    (takes : (Party.waiter id).takes (e.label n)) :
    Done ((e.state (n + 1)).db.getTask id) ∨
      ∃ after, ((e.state (n + 1)).cells.get id).waiter = some after ∧ after.rank < waiter.rank := by
  obtain ⟨a, isAct, waits⟩ := takes
  obtain ⟨b, slot, isOwn, moved, isCell, isRow⟩ | ⟨other, _⟩ := winding.cell n id
  · cases isAct.symm.trans isOwn
    rw [isCell, isRow]
    rw [waits_taskStep waits, show ((e.state n).slot id).cell.waiter = _ from watched] at moved
    obtain left | done := waitStep_kept ((winding.prepared n).displays id) moved (fun evaluation same =>
      (e.next n).2.encodes evaluation (.inr ⟨id, by rw [isAct, same]⟩))
    · obtain ⟨after, isAfter⟩ := Option.isSome_iff_exists.mp left
      refine .inr ⟨after, isAfter, waitStep_rank rests (fun same => ?_) moved isAfter⟩
      exact probed id (by rw [isAct, same])
    · exact .inl done
  · exact absurd isAct (other a)

/-- A waiter that no step resumes is able to go on once it has slept. -/
theorem waiter_ready (fairly : Fairly e) {n : Nat}
    (gone : ∀ m, n ≤ m → ((e.state m).cells.get id).starter = none)
    {waiter : Waiter} (watched : ((e.state n).cells.get id).waiter = some waiter)
    (idle : ∀ m, n ≤ m → ¬ (Party.waiter id).takes (e.label m)) :
    ∃ k, ∀ m, k ≤ m → (Party.waiter id).able config (e.state m) := by
  have same : ∀ m, n ≤ m → ((e.state m).cells.get id).waiter = some waiter := by
    intro m later
    induction m, later using Nat.le_induction with
    | base => exact watched
    | succ m later ih => exact (winding.waiter_still (gone m later) (idle m later)).trans ih
  obtain ⟨k, later, awake⟩ : ∃ k, n ≤ k ∧ ∀ m, k ≤ m →
    ∀ failures wake, waiter = .backoff failures wake →
      wake ≤ (e.state m).monotonic := by
    cases waiter with
    | backoff failures wake =>
      obtain ⟨k, later, reached⟩ := winding.late fairly n wake
      refine ⟨k, later, fun m after _ _ isWaiter => ?_⟩
      cases isWaiter
      exact reached m after
    | created | waiting | probing | evaluating =>
      exact ⟨n, le_rfl, fun _ _ _ _ impossible => by cases impossible⟩
  refine ⟨k, fun m after => ?_⟩
  obtain ⟨a, slot, waits, stepped⟩ :=
    @waitStep_able config id ((e.state m).slot id) ((e.state m).moment id) waiter (awake m after)
  have moved : ((e.state m).slot id).taskStep config ((e.state m).moment id) id a = some slot := by
    rw [waits_taskStep waits,
      show ((e.state m).slot id).cell.waiter = _ from same m (later.trans after)]
    exact stepped
  exact able_task m ⟨a, rfl, waits⟩ moved

/-- A task whose tree has come to rest is ended by its waiter. -/
theorem waiter_ends (fairly : Fairly e)
    (rests : e.Settles (fun s => (s.cells.get id).tree.rests = true)) (n : Nat) :
    ∃ m, n ≤ m ∧ Done ((e.state m).db.getTask id) := by
  obtain ⟨first, gone⟩ := winding.starter_ends fairly id
  obtain ⟨second, resting⟩ := rests
  obtain ⟨third, probed⟩ := fairly.probed
  obtain ⟨start, isStart⟩ : ∃ start, start = n + first + second + third := ⟨_, rfl⟩
  by_cases done : Done ((e.state start).db.getTask id)
  · exact ⟨start, by omega, done⟩
  have watched : ((e.state start).cells.get id).waiter.isSome = true := by
    obtain impossible | busy | watched :=
      (winding.prepared start).manned (.inr (winding.phase start)) id
    · exact absurd impossible done
    · rw [show ((e.state start).view id).cell.starter = none from gone start (by omega)] at busy
      cases busy
    · exact watched
  let rank : System → Nat := fun s => (s.cells.get id).waiter.elim 0 Waiter.rank
  have isRank : ∀ {s : System} {waiter : Waiter}, (s.cells.get id).waiter = some waiter →
    rank s = waiter.rank := by
    intro s waiter isWaiter
    simp only [rank, isWaiter, Option.elim_some]
  suffices reached : ∃ m,
    Done ((e.state (start + m)).db.getTask id) from reached.imp' (start + ·)
    (fun m reached => ⟨by omega, reached⟩)
  refine ((fairly.resumed (.waiter id)).drop start).reaches
    (fun s => ∃ waiter, (s.cells.get id).waiter = some waiter) (fun s => Done (s.db.getTask id)) rank
    (fun k alive => ?_) (fun k alive idle => ?_) (Option.isSome_iff_exists.mp watched)
  · obtain ⟨waiter, isWaiter⟩ : ∃ waiter,
      ((e.state (start + k)).cells.get id).waiter = some waiter := alive
    have starterless : ((e.state (start + k)).cells.get id).starter = none :=
      gone (start + k) (by omega)
    by_cases takes : (Party.waiter id).takes (e.label (start + k))
    · obtain done | ⟨after, isAfter, below⟩ := winding.waiter_goes (resting (start + k) (by omega))
        (probed (start + k) (by omega)) isWaiter takes
      · exact .inl done
      · have lower : rank (e.state (start + k + 1)) < rank (e.state (start + k)) := by
          rw [isRank isAfter, isRank isWaiter]
          exact below
        exact .inr ⟨⟨after, isAfter⟩, lower.le, fun _ => lower⟩
    · have still := winding.waiter_still starterless takes
      refine .inr ⟨⟨waiter, still.trans isWaiter⟩, ?_, fun taken => absurd taken takes⟩
      change rank (e.state (start + k + 1)) ≤ rank (e.state (start + k))
      rw [isRank (still.trans isWaiter), isRank isWaiter]
  · obtain ⟨waiter, isWaiter⟩ : ∃ waiter,
      ((e.state (start + k)).cells.get id).waiter = some waiter := alive
    obtain ⟨ready, able⟩ := winding.waiter_ready fairly (fun m later => gone m (by omega)) isWaiter
      (fun m later takes => idle (m - start) (by omega) (by
        change (Party.waiter id).takes (e.label (start + (m - start)))
        rwa [show start + (m - start) = m by omega]))
    exact ⟨ready, fun m later => able (start + m) (by omega)⟩

end Waiters

section Stages

/-- Later on the shutdown is closer to its end. -/
def Falls (e : Execution (Guarded (Step config) (Unhindered config))) (n : Nat)
    (shutdown : Shutdown) : Prop :=
  ∃ m, n ≤ m ∧ ∃ later, (e.state m).phase = .closing later ∧ later.rank < shutdown.rank

omit winding in
theorem Falls.from_later {n m : Nat} {before shutdown : Shutdown} (falls : Falls e m shutdown)
    (later : n ≤ m)
    (still : before.Still shutdown) : Falls e n before := by
  obtain ⟨k, after, next, phase, below⟩ := falls
  rw [still.rank] at below
  exact ⟨k, later.trans after, next, phase, below⟩

/-- A shutdown does not go back. -/
theorem stays {n m : Nat} {shutdown : Shutdown} (phase : (e.state n).phase = .closing shutdown)
    (later : n ≤ m) :
    Falls e n shutdown ∨ ∃ after, (e.state m).phase = .closing after ∧ shutdown.Still after := by
  induction m, later using Nat.le_induction with
  | base => exact .inr ⟨shutdown, phase, .same _⟩
  | succ m later ih =>
    obtain falls | ⟨after, isAfter, still⟩ := ih
    · exact .inl falls
    obtain ⟨a, _, _, isPhase, closed⟩ | ⟨_, same⟩ := winding.moves m
    · cases isAfter.symm.trans isPhase
      obtain ⟨next, isNext, shuts⟩ := shuts_shutdownStep closed
      obtain below | onward := shuts.still
      · rw [still.rank] at below
        exact .inl ⟨m + 1, by omega, next, isNext, below⟩
      · exact .inr ⟨next, isNext, still.trans onward⟩
    · exact .inr ⟨after, same.trans isAfter, still⟩

/-- A shutdown that can go on from some instant on, as long as it has not, takes a step. -/
theorem taken (fairly : Fairly e) {n : Nat} {shutdown : Shutdown}
    (phase : (e.state n).phase = .closing shutdown)
    (ready : (∀ m, n ≤ m → (e.state m).phase = .closing shutdown ∧ ∀ a, e.label m ≠ .closing a) →
      ∃ k, ∀ m, k ≤ m → Party.shutdown.able config (e.state m)) :
    ∃ m a, n ≤ m ∧ (e.state m).phase = .closing shutdown ∧
      (e.state m).shutdownStep config shutdown a = some (e.state (m + 1)) := by
  by_contra none
  have calm : ∀ m, n ≤ m → (e.state m).phase = .closing shutdown → ∀ a, e.label m ≠ .closing a := by
    intro m later phase a isAct
    obtain ⟨b, _, _, isPhase, closed⟩ | ⟨other, _⟩ := winding.moves m
    · cases phase.symm.trans isPhase
      exact none ⟨m, b, later, phase, closed⟩
    · exact other a isAct
  have phases : ∀ m, n ≤ m → (e.state m).phase = .closing shutdown := by
    intro m later
    induction m, later using Nat.le_induction with
    | base => exact phase
    | succ m later ih =>
      obtain ⟨a, _, isAct, _⟩ | ⟨_, same⟩ := winding.moves m
      · exact absurd isAct (calm m later ih a)
      · exact same.trans ih
  obtain ⟨k, able⟩ := ready (fun m later => ⟨phases m later, calm m later (phases m later)⟩)
  obtain ⟨m, later, a, isAct⟩ :=
    fairly.resumed .shutdown (max n k) (fun m later => able m ((le_max_right n k).trans later))
  have reached : n ≤ m := (le_max_left n k).trans later
  exact calm m reached (phases m reached) a isAct

/-- A stage that can be left, and that every step leaves. -/
theorem leaves (fairly : Fairly e) {n : Nat} {shutdown : Shutdown}
    (phase : (e.state n).phase = .closing shutdown)
    (lowers : ∀ m a later, n ≤ m → Shuts config (e.state m) a shutdown later →
      later.rank < shutdown.rank)
    (ready : (∀ m, n ≤ m → (e.state m).phase = .closing shutdown ∧ ∀ a, e.label m ≠ .closing a) →
      ∃ k, ∀ m, k ≤ m → Party.shutdown.able config (e.state m)) : Falls e n shutdown := by
  obtain ⟨m, a, after, _, closed⟩ := winding.taken fairly phase ready
  obtain ⟨later, isLater, shuts⟩ := shuts_shutdownStep closed
  exact ⟨m + 1, by omega, later, isLater, lowers m a later after shuts⟩

/-- The loop ends its last turn. -/
theorem loop_ends (fairly : Fairly e) : e.Settles (fun s => s.loop = .finished) := by
  by_contra unsettled
  have keep : ∀ n, (e.state n).loop = .finished → (e.state (n + 1)).loop = .finished := by
    intro n finished
    obtain ⟨shutdown, phase⟩ := winding.phase n
    obtain ⟨_, _, _, _, _, after⟩ | ⟨_, _, _, _, _, _, ends⟩ | ⟨_, _, closed⟩ :=
      shutting_step phase (e.next n).2.survives (e.next n).1
    · rw [after]
      exact finished
    · obtain ⟨_, ended⟩ | ⟨_, same⟩ := ends
      · exact ended
      · exact same.trans finished
    · exact (frame_shutdownStep (fun _ _ _ _ => rfl) closed).trans finished
  have live : ∀ n, (e.state n).loop = .live := fun n =>
    (winding.lively n).resolve_right
      (fun finished => unsettled (Execution.settles_of_stable e keep finished))
  obtain ⟨m, _, isAct⟩ := fairly.resumed .loop 0 (fun m _ => by
    obtain ⟨shutdown, phase⟩ := winding.phase m
    exact able_loop phase (live m))
  have isLoop : e.label m = .loopEnd := isAct
  obtain ⟨shutdown, phase⟩ := winding.phase m
  obtain ⟨_, _, _, isTask, _⟩ | ⟨_, _, _, _, _, _, ends⟩ | ⟨_, isClosing, _⟩ :=
    shutting_step phase (e.next m).2.survives (e.next m).1
  · cases isLoop.symm.trans isTask
  · obtain ⟨_, ended⟩ | ⟨other, _⟩ := ends
    · cases (live (m + 1)).symm.trans ended
    · exact other isLoop
  · cases isLoop.symm.trans isClosing

theorem scheduler_falls (fairly : Fairly e) {n : Nat} {timeout : Seconds}
    (phase : (e.state n).phase = .closing (.awaitingScheduler timeout)) :
    Falls e n (.awaitingScheduler timeout) := by
  refine winding.leaves fairly phase (fun _ _ _ _ shuts => shuts.lowers (by simp) (by simp))
    (fun still => ?_)
  obtain ⟨k, finished⟩ := winding.loop_ends fairly
  refine ⟨max n k, fun m later => ?_⟩
  refine @able_closing config e m _ .scheduler (still m ((le_max_left n k).trans later)).1 ?_
  unfold System.shutdownStep
  rw [finished m ((le_max_right n k).trans later)]
  rfl

theorem starters_fall (fairly : Fairly e) {n : Nat} {timeout : Seconds}
    (phase : (e.state n).phase = .closing (.awaitingStarters timeout)) :
    Falls e n (.awaitingStarters timeout) := by
  refine winding.leaves fairly phase (fun _ _ _ _ shuts => shuts.lowers (by simp) (by simp))
    (fun still => ?_)
  obtain ⟨k, gone⟩ := winding.starters_end fairly
  refine ⟨max n k, fun m later => ?_⟩
  refine @able_closing config e m _ .drain (still m ((le_max_left n k).trans later)).1 ?_
  have free : (e.state m).cells.all (fun cell => cell.starter.isNone) = true := by
    refine (Dict.all_iff _ rfl).mpr (fun id => ?_)
    rw [gone m ((le_max_right n k).trans later) id]
    rfl
  unfold System.shutdownStep
  dsimp only
  rw [if_pos free, Option.isSome_map]
  exact drain_possible (winding.prepared m).displays (winding.prepared m).poised

/-- The graceful stage ends with its deadline at the latest. -/
theorem waiting_falls (fairly : Fairly e) {n : Nat} {deadline wake : Seconds}
    (phase : (e.state n).phase = .closing (.waiting deadline wake)) :
    Falls e n (.waiting deadline wake) := by
  obtain ⟨k, later, late⟩ := winding.late fairly n deadline
  obtain falls | ⟨after, isAfter, still⟩ := winding.stays phase later
  · exact falls
  obtain ⟨last, rfl⟩ : ∃ last, after = .waiting deadline last := by
    cases still with
    | same => exact ⟨wake, rfl⟩
    | waiting _ _ last => exact ⟨last, rfl⟩
  refine Falls.from_later
    (winding.leaves fairly isAfter (fun m a next reached shuts => ?_) (fun still => ?_)) later still
  · cases shuts with
    | lower below => exact below
    | looked _ _ _ early isBefore =>
      cases isBefore
      exact absurd early (not_lt.mpr (late m reached))
    | probed _ _ _ _ _ _ _ _ isBefore => cases isBefore
  · obtain ⟨j, reached, awake⟩ := winding.late fairly k last
    refine ⟨j, fun m later => ?_⟩
    refine @able_closing config e m _ .poll (still m (reached.trans later)).1 ?_
    unfold System.shutdownStep
    dsimp only
    rw [if_pos (awake m later)]
    rfl

/-- A stop that has been cancelled comes to its end. -/
theorem cancelled_ends (fairly : Fairly e) {n : Nat} {remaining : List TaskId} (member : id ∈ remaining)
    (still : ∀ m, n ≤ m → (e.state m).phase = .closing (.cancelling remaining) ∧
      ∀ a, e.label m ≠ .closing a) :
    e.Settles (fun s => s.sequenceOver id = true) := by
  have keep : ∀ m, n ≤ m → (e.state m).sequenceOver id = true →
    (e.state (m + 1)).sequenceOver id = true := by
    intro m later passed
    obtain ⟨a, slot, _, moved, isCell, _⟩ | ⟨_, _, same⟩ := winding.cell m id
    · unfold System.sequenceOver at passed ⊢
      rw [isCell, over_taskStep passed moved]
      exact passed
    · unfold System.sequenceOver
      rw [same (still m later).2]
      exact passed
  by_contra unsettled
  have never : ∀ m, n ≤ m → (e.state m).sequenceOver id ≠ true := by
    intro m later passed
    refine unsettled ⟨m, fun k after => ?_⟩
    induction k, after using Nat.le_induction with
    | base => exact passed
    | succ k after ih => exact keep k (later.trans after) ih
  have cancelled : ∀ m, n ≤ m → ∃ entered advance,
      ((e.state m).cells.get id).sequence = some ⟨.cancelled entered, advance⟩ := fun m later =>
    cancelled_of_quiet ((winding.prepared m).quieted remaining (still m later).1 id member)
      (never m later)
  obtain ⟨m, later, a, isAct⟩ := fairly.resumed (.stop id) n (fun m later => by
    obtain ⟨entered, advance, isSequence⟩ := cancelled m later
    have ends := @stopStep_cancelled config id ((e.state m).slot id)
      ((e.state m).moment id) entered advance isSequence .cancelDone
    exact able_task m ⟨.cancelDone, rfl⟩ (ends.trans (if_pos rfl)))
  obtain ⟨entered, advance, isSequence⟩ := cancelled m later
  obtain ⟨b, slot, isOwn, moved, isCell, _⟩ | ⟨other, _⟩ := winding.cell m id
  · cases isAct.symm.trans isOwn
    have stopped : ((e.state m).slot id).cell.sequence = some ⟨.cancelled entered, advance⟩ :=
      isSequence
    rw [stopStep_cancelled stopped] at moved
    split at moved <;> cases moved
    exact never (m + 1) (by omega) (over_cancelled (congrArg Cell.sequence isCell))
  · exact other (.stop a) isAct

theorem cancelling_falls (fairly : Fairly e) {n : Nat} {remaining : List TaskId}
    (phase : (e.state n).phase = .closing (.cancelling remaining)) :
    Falls e n (.cancelling remaining) := by
  refine winding.leaves fairly phase (fun _ _ _ _ shuts => shuts.lowers (by simp) (by simp))
    (fun still => ?_)
  obtain ⟨k, passed⟩ :=
    Execution.settles_all remaining (fun id member => winding.cancelled_ends fairly member still)
  refine ⟨max n k, fun m later => ?_⟩
  refine @able_closing config e m _ .gathered (still m ((le_max_left n k).trans later)).1 ?_
  unfold System.shutdownStep
  dsimp only
  rw [if_pos (List.all_eq_true.mpr
    (fun id member => passed m ((le_max_right n k).trans later) id member))]
  rfl

theorem killing_falls (fairly : Fairly e) {n : Nat} {delivered todo : List TaskId} {current : TaskId}
    (phase : (e.state n).phase = .closing (.killing delivered current todo)) :
    Falls e n (.killing delivered current todo) :=
  winding.leaves fairly phase (fun _ _ _ _ shuts => shuts.lowers (by simp) (by simp))
    (fun still => ⟨n, fun m later => @able_closing config e m _ .killed (still m later).1 rfl⟩)

/-- Every task that the forced stage has signalled comes to rest. -/
theorem struck_rests (fairly : Fairly e) {n : Nat} {shutdown : Shutdown}
    (phase : (e.state n).phase = .closing shutdown)
    (member : id ∈ shutdown.struck) : e.Settles (fun s => (s.cells.get id).tree.rests = true) := by
  induction n generalizing shutdown with
  | zero =>
    obtain ⟨timeout, begins⟩ := winding.begins
    cases phase.symm.trans begins
    cases member
  | succ n ih =>
    obtain ⟨a, before, isAct, isPhase, closed⟩ | ⟨_, same⟩ := winding.moves n
    · obtain earlier | ⟨rfl, delivered, todo, rfl⟩ := struck_shutdownStep closed phase member
      · exact ih isPhase earlier
      · exact fairly.killed n delivered id todo isPhase isAct
    · exact ih (same.symm.trans phase) member

/-- The confirmation of a task that has ended comes to its end. -/
theorem confirmed_falls (fairly : Fairly e) {n : Nat} {exited todo : List TaskId} {current : TaskId}
    {confirm : Confirm}
    (phase : (e.state n).phase = .closing (.confirming exited current todo confirm))
    (ended : ¬ (e.state n).db.Pends current) : Falls e n (.confirming exited current todo confirm) := by
  obtain ⟨bound, isBound⟩ : ∃ bound, bound = confirm.rank := ⟨_, rfl⟩
  induction bound using Nat.strong_induction_on generalizing n confirm with
  | _ bound ih =>
    obtain ⟨m, a, later, isPhase, closed⟩ := winding.taken fairly phase (fun still => by
      obtain ⟨k, after, awake⟩ : ∃ k, n ≤ k ∧ ∀ m, k ≤ m →
        ∀ attempt wake, confirm = .sleeping attempt wake →
          wake ≤ (e.state m).monotonic := by
        cases confirm with
        | sleeping attempt wake =>
          obtain ⟨k, later, late⟩ := winding.late fairly n wake
          refine ⟨k, later, fun m after _ _ same => ?_⟩
          cases same
          exact late m after
        | probing | killing => exact ⟨n, le_rfl, fun _ _ _ _ impossible => by cases impossible⟩
      refine ⟨k, fun m later => ?_⟩
      obtain ⟨a, result, stepped⟩ := @confirmStep_able config current ((e.state m).slot current)
        ((e.state m).moment current) confirm (awake m later)
      refine @able_closing config e m _ (.confirm a) (still m (after.trans later)).1 ?_
      unfold System.shutdownStep
      dsimp only
      rw [stepped]
      rfl)
    obtain ⟨next, isNext, shuts⟩ := shuts_shutdownStep closed
    have onward : Falls e (m + 1) (.confirming exited current todo confirm) →
        Falls e n (.confirming exited current todo confirm) := fun falls =>
          falls.from_later (by omega) (.same _)
    refine onward ?_
    cases shuts with
    | lower below => exact ⟨m + 1, le_rfl, next, isNext, below⟩
    | looked _ _ _ _ isBefore => cases isBefore
    | probed _ _ _ _ after _ _ _ isBefore isAfter stepped =>
      cases isBefore
      cases isAfter
      have tallies : Tallies (e.state m).db (current :: todo) := winding.winds isPhase
      obtain ⟨row, found⟩ := Option.isSome_iff_exists.mp (tallies.stored current List.mem_cons_self)
      have terminal : row.state.terminal = true := by
        by_contra pending
        exact winding.ended_stays ended later ⟨row, found, by simpa using pending⟩
      have below := confirmStep_rank
        (show ((e.state m).slot current).db.getTask current = some row from found) terminal stepped
      refine Falls.from_later
        (ih _ (isBound ▸ below) isNext (winding.ended_stays ended (by omega)) rfl) le_rfl ?_
      exact .confirming _ _ _ _ _

/-- A task that got its SIGKILL is confirmed. -/
theorem confirming_falls (fairly : Fairly e) {n : Nat} {exited todo : List TaskId}
    {current : TaskId} {confirm : Confirm}
    (phase : (e.state n).phase = .closing (.confirming exited current todo confirm)) :
    Falls e n (.confirming exited current todo confirm) := by
  have rests := winding.struck_rests fairly phase List.mem_cons_self
  obtain ⟨m, later, done⟩ := winding.waiter_ends fairly rests n
  obtain falls | ⟨after, isAfter, still⟩ := winding.stays phase later
  · exact falls
  obtain ⟨last, rfl⟩ : ∃ last, after = .confirming exited current todo last := by
    cases still with
    | same => exact ⟨confirm, rfl⟩
    | confirming _ _ _ _ last => exact ⟨last, rfl⟩
  refine Falls.from_later (winding.confirmed_falls fairly isAfter ?_) later still
  rintro ⟨row, found, pending⟩
  have tallies : Tallies (e.state m).db (current :: todo) := winding.winds isAfter
  have idle := done row found
  rw [tallies.stopping current row found pending] at idle
  cases idle

/-- No stage but the last lasts. -/
theorem falls (fairly : Fairly e) {n : Nat} {shutdown : Shutdown}
    (phase : (e.state n).phase = .closing shutdown)
    (unreturned : shutdown ≠ .returned) : Falls e n shutdown := by
  cases shutdown with
  | awaitingScheduler => exact winding.scheduler_falls fairly phase
  | awaitingStarters => exact winding.starters_fall fairly phase
  | waiting => exact winding.waiting_falls fairly phase
  | cancelling => exact winding.cancelling_falls fairly phase
  | killing => exact winding.killing_falls fairly phase
  | confirming => exact winding.confirming_falls fairly phase
  | returned => exact absurd rfl unreturned
  | raised => exact (winding.winds phase).elim

/-- The shutdown returns, and no task pends. -/
theorem returns (fairly : Fairly e) :
    ∃ n, (e.state n).phase = .closing .returned ∧ ∀ id, ¬ (e.state n).db.Pends id := by
  suffices reached : ∀ rank n shutdown, (e.state n).phase = .closing shutdown → shutdown.rank = rank →
      ∃ m, (e.state m).phase = .closing .returned by
    obtain ⟨shutdown, phase⟩ := winding.phase 0
    obtain ⟨n, returned⟩ := reached shutdown.rank 0 shutdown phase rfl
    exact ⟨n, returned, winding.winds returned⟩
  intro rank
  induction rank using WellFoundedLT.induction with
  | ind rank ih =>
    intro n shutdown phase isRank
    by_cases returned : shutdown = .returned
    · exact ⟨n, returned ▸ phase⟩
    · obtain ⟨m, _, later, isLater, below⟩ := winding.falls fairly phase returned
      exact ih later.rank (isRank ▸ below) m later isLater rfl

end Stages

end Winding

end Executions
end LocalFlow
