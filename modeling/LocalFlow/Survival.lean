import LocalFlow.Settling
import Mathlib.Algebra.Order.Archimedean.Basic

/-! The service survives its ticks as long as no call of one fails: the loop goes on, and a shutdown
ends every task. After the first failing call neither holds. -/
namespace LocalFlow
open Transition
variable {config : Config} {s t : System} {act : Act} {id : TaskId}

section Survival
variable {boot wall : String} {receipt : Receipt} {acts : List Act}

/-- What a run without a failing call keeps. -/
structure Enduring (s : System) : Prop where
  shown : s.db.Displays
  lively : s.phase.Lively s.loop
  winds : ∀ shutdown, s.phase = .closing shutdown → shutdown.Winds (fun _ => False) s.db

theorem enduring_step (enduring : Enduring s)
    (stepped : Guarded (Step config) (Faultless config) s act t) :
    Enduring t := by
  obtain ⟨moved, faultless⟩ := stepped
  constructor
  · exact displays_step moved faultless.shown enduring.shown
  · exact lively_step enduring.shown enduring.lively faultless moved
  · intro shutdown closing
    refine winds_step (fun _ => id) enduring.winds (.inr enduring.shown) moved ?_ ?_ closing
    · intro isAct failed
      cases isAct
      obtain ⟨was, phase, _⟩ := closing_step moved
      have lively := enduring.lively
      rw [phase, failed] at lively
      obtain live | finished := lively
      · cases live
      · cases finished
    · exact fun isAct => isAct.elim (absurd · faultless.signalled.1) (absurd · faultless.signalled.2)

theorem enduring_run
    (run : Run (Guarded (Step config) (Faultless config)) (.initial boot wall receipt) acts s) :
    Enduring s :=
  run.invariant enduring_step ⟨displays_empty, trivial, fun _ closing => by cases closing⟩

theorem mindful_run (run : Run (Guarded (Step config) (Mindful config))
      (.initial boot wall receipt) acts s) :
    Prepared s :=
  run.invariant (fun prepared stepped => prepared.step stepped.2.shown stepped.2.toMinding stepped.1)
    (prepared_initial boot wall receipt)

theorem shutdown_begins {timeout : Seconds} (stepped : Step config s (.shutdown timeout) t) :
    t.phase = .closing (.awaitingScheduler timeout) := by
  unfold Step step at stepped
  split at stepped
  any_goals contradiction
  rename_i isAct _
  cases isAct
  cases stepped
  rfl

/-- What a shutdown begins with, and what holds as long as it goes on. -/
theorem winding_of {timeout : Seconds} {e : Execution (Guarded (Step config) (Unhindered config))}
    (enduring : Enduring (e.state 0)) (prepared : Prepared (e.state 0))
    (begins : (e.state 0).phase = .closing (.awaitingScheduler timeout)) : Winding e := by
  have endures : ∀ n, Enduring (e.state n) := fun n =>
    (e.run n).invariant (fun enduring stepped =>
      enduring_step enduring ⟨stepped.1, stepped.2.toFaultless⟩) enduring
  have closes : ∀ n, ∃ shutdown, (e.state n).phase = .closing shutdown := by
    intro n
    induction n with
    | zero => exact ⟨_, begins⟩
    | succ n ih =>
      obtain ⟨shutdown, phase⟩ := ih
      obtain ⟨_, _, _, _, _, after⟩ | ⟨_, _, _, _, same, _⟩ | ⟨_, _, closed⟩ :=
        shutting_step phase (e.next n).2.survives (e.next n).1
      · exact ⟨shutdown, by rw [after]; exact phase⟩
      · exact ⟨shutdown, same⟩
      · exact closing_shutdownStep closed
  refine ⟨fun n => ?_, ⟨timeout, begins⟩, fun n => ?_, fun n => ?_⟩
  · exact (e.run n).invariant
      (fun prepared stepped => prepared.step stepped.2.shown stepped.2.toMinding stepped.1) prepared
  · obtain ⟨shutdown, phase⟩ := closes n
    exact ⟨shutdown, phase, (endures n).winds shutdown phase⟩
  · obtain ⟨shutdown, phase⟩ := closes n
    have lively := (endures n).lively
    rw [phase] at lively
    exact lively

/-- In every run without a failing call each later turn of the loop runs, and enough of them in a row
start every queued task without keys for which there is a place; a shutdown never raises, and returns
only when every task has ended, and in every fair execution that minds its launches it does return. In
any state a turn ends the loop exactly when one of its calls raises. -/
theorem loop_survives
    (run : Run (Guarded (Step config) (Faultless config)) (.initial boot wall receipt) acts s) :
    (s.phase = .serving → ∀ cutoffs : List String,
      (∀ cutoff ∈ cutoffs, (s.db.terminalTaskIdsBefore cutoff).length ≤ Db.variableLimit) → ∃ t,
      Run (Step config) s (cutoffs.map (fun cutoff => .tick cutoff none)) t ∧ t.phase = .serving ∧
        t.loop = .live ∧
      (2 * pages s.db.queuedCount (pageFloor config.maxConcurrency) + 1 ≤ cutoffs.length →
        ∀ brief ∈ t.db.briefs, brief.state = .queued → brief.mutexKeys = [] →
          ∃ limit, config.maxConcurrency = some limit ∧ limit ≤ t.db.activeCount)) ∧
    (∀ cutoff faults t, Step config s (.tick cutoff faults) t →
      (t.loop = .live ↔ (s.turn config cutoff faults).raised = false)) ∧
    (∀ shutdown, s.phase = .closing shutdown → shutdown.Winds (fun _ => False) s.db) ∧
    (Run (Guarded (Step config) (Mindful config)) (.initial boot wall receipt) acts s →
      ∀ timeout (e : Execution (Guarded (Step config) (Unhindered config))),
        Step config s (.shutdown timeout) (e.state 0) →
        Fairly e → ∃ n, (e.state n).phase = .closing .returned ∧ ∀ id, ¬ (e.state n).db.Pends id) := by
  have enduring := enduring_run run
  refine ⟨fun serving cutoffs few => ?_, fun _ _ _ => tick_survives, enduring.winds,
    fun mindful timeout e shuts fairly => ?_⟩
  swap
  · have undrafted : ∀ draft ∈ (Act.shutdown timeout).drafts, Displayable draft.pluginSnapshot := by
      simp [Act.drafts]
    have faultless : Faultless config s (.shutdown timeout) := ⟨by simp, undrafted, by simp⟩
    have minding : Minding s (.shutdown timeout) := ⟨by simp, by simp⟩
    exact (winding_of (enduring_step enduring ⟨shuts, faultless⟩)
      ((mindful_run mindful).step undrafted minding shuts)
      (shutdown_begins shuts)).returns fairly
  have live := enduring.lively
  rw [serving] at live
  obtain ⟨t, moves, ticks, phase, alive, passes, count⟩ :=
    @ticks_run config s cutoffs few enduring.shown serving live
  refine ⟨t, ticks, phase, alive, fun enough brief stored queued free => ?_⟩
  have saturated := first_pass passes _ _ (s.queue.waiting_le.trans (le_pages _)) (le_pages _) (by
    rw [count]
    change pages s.db.queuedCount _ + pages s.db.queuedCount _ ≤ _
    omega)
  obtain full | blocked := saturated
  · exact full
  · obtain ⟨_, _, _, key, member, _⟩ := blocked brief stored queued
    rw [free] at member
    cases member

/-- Whether nothing fails at a step, and nothing dies. -/
def System.unhindered (s : System) (act : Act) : Bool :=
  act.survives && match act with
    | .tick cutoff faults => faults.isNone &&
        decide ((s.db.terminalTaskIdsBefore cutoff).length ≤ Db.variableLimit)
    | .submit _ draft => draft.pluginSnapshot.isEmpty
    | .task _ (.waitEvaluated .nothing) => true
    | .task _ (.waitEvaluated _) | .submitBatch _ _ _ _ _ | .recover
        (.evaluated _) | .task _ .startRaise | .closing .killRaise
    | .closing (.confirm .killRaise) => false
    | _ => true

theorem unhindered_sound (s : System) (act : Act) (passed : s.unhindered act = true) :
    Unhindered config s act := by
  obtain ⟨survives, checked⟩ := Bool.and_eq_true _ _ |>.mp passed
  refine ⟨⟨⟨?_, ?_, ?_, ?_⟩, ?_, ?_⟩, survives⟩
  · rintro cutoff faults rfl
    obtain ⟨unfailing, few⟩ := Bool.and_eq_true _ _ |>.mp checked
    exact ⟨Option.isNone_iff_eq_none.mp unfailing, fun _ => of_decide_eq_true few⟩
  · intro draft member
    cases act with
    | submit id draft =>
      cases List.mem_singleton.mp member
      rw [List.isEmpty_iff.mp checked]
      exact displayable_nil
    | submitBatch => cases checked
    | _ => cases member
  · rintro rfl
    cases checked
  · rintro rfl
    cases checked
  · rintro evaluation (rfl | ⟨id, rfl⟩)
    · cases checked
    · cases evaluation with
      | nothing => trivial
      | raised | result => cases checked
  · rintro id rfl
    cases checked

/-- No coroutine of the task is left, and its tree is at rest. -/
def Cell.ceased (cell : Cell) : Bool :=
  cell.starter.isNone && cell.waiter.isNone && cell.tree.rests &&
    cell.sequence.all (fun sequence => match sequence.point with
      | .ended => true
      | _ => false)

/-- The shutdown has returned and nothing goes on. -/
structure Ceased (s : System) : Prop where
  returned : s.phase = .closing .returned
  finished : s.loop = .finished
  cells : ∀ id, (s.cells.get id).ceased = true

theorem ceased_stalls (ceased : Ceased s) (party : Party) : ¬ party.able config s := by
  rintro ⟨act, t, takes, stepped⟩
  have slotted : ∀ id a, act = .task id a →
    ∃ slot, (s.slot id).taskStep config (s.moment id) id a = some slot := by
    rintro id a rfl
    obtain ⟨slot, moved, _⟩ := Option.map_eq_some_iff.mp stepped
    exact ⟨slot, moved⟩
  cases party with
  | loop =>
    cases (takes : act = .loopEnd)
    unfold Step step at stepped
    rw [ceased.returned] at stepped
    dsimp only at stepped
    rw [ceased.finished, if_neg (by simp)] at stepped
    cases stepped
  | starter id =>
    obtain ⟨a, isAct, starts⟩ := takes
    obtain ⟨slot, moved⟩ := slotted id a isAct
    have quiet := ceased.cells id
    simp only [Cell.ceased, Bool.and_eq_true, Option.isNone_iff_eq_none] at quiet
    rw [starts_taskStep starts, show (s.slot id).cell.starter = none from quiet.1.1.1] at moved
    cases a <;> cases moved
  | waiter id =>
    obtain ⟨a, isAct, waits⟩ := takes
    obtain ⟨slot, moved⟩ := slotted id a isAct
    have quiet := ceased.cells id
    simp only [Cell.ceased, Bool.and_eq_true, Option.isNone_iff_eq_none] at quiet
    rw [waits_taskStep waits, show (s.slot id).cell.waiter = none from quiet.1.1.2] at moved
    cases a <;> cases moved
  | stop id =>
    obtain ⟨a, isAct⟩ := takes
    obtain ⟨slot, moved⟩ := slotted id (.stop a) isAct
    have quiet := ceased.cells id
    simp only [Cell.ceased, Bool.and_eq_true] at quiet
    obtain ⟨sequence, isSequence, stopped⟩ := Option.bind_eq_some_iff.mp moved
    have passed := quiet.2
    rw [show (s.cells.get id).sequence = some sequence from isSequence, Option.all_some] at passed
    obtain ⟨point, advance⟩ := sequence
    cases point <;> cases passed
    cases a <;> cases stopped
  | shutdown =>
    obtain ⟨a, rfl⟩ := takes
    obtain ⟨shutdown, phase, closed⟩ := closing_step stepped
    cases ceased.returned.symm.trans phase
    cases a <;> cases closed

/-- Only the clock moves on. -/
def idling (config : Config) (s : System) : Execution (Guarded (Step config) (Unhindered config)) where
  state n := { s with monotonic := s.monotonic + n }
  label n := .clock s.wall (s.monotonic + (n + 1 : Nat))
  next n := by
    refine ⟨?_, unhindered_sound _ _ rfl⟩
    exact if_pos (by simp)

/-- An execution in which only the clock moves on after the end is fair. -/
theorem fairly_of_ceased {e : Execution (Guarded (Step config) (Unhindered config))} {n : Nat}
    (ceased : Ceased s)
    (idles : ∀ m, e.state (n + m) = (idling config s).state m ∧
      e.label (n + m) = (idling config s).label m) : Fairly e := by
  have later : ∀ m, n ≤ m → Ceased (e.state m) ∧ ∀ id a, e.label m ≠ .task id a := by
    intro m later
    obtain ⟨k, rfl⟩ := Nat.exists_eq_add_of_le later
    obtain ⟨isState, isLabel⟩ := idles k
    rw [isState, isLabel]
    exact ⟨⟨ceased.returned, ceased.finished, ceased.cells⟩, fun id a same => by cases same⟩
  have resting : ∀ m, n ≤ m → ∀ id, ((e.state m).cells.get id).tree.rests = true := by
    intro m after id
    have quiet := (later m after).1.cells id
    simp only [Cell.ceased, Bool.and_eq_true] at quiet
    exact quiet.1.2
  constructor
  · intro party k able
    exact absurd (able (max n k) (le_max_right n k)) (ceased_stalls (later _ (le_max_left n k)).1 party)
  · intro time
    obtain ⟨k, reached⟩ := exists_nat_ge (time - s.monotonic)
    refine ⟨n + k, ?_⟩
    rw [(idles k).1]
    exact sub_le_iff_le_add'.mp reached
  · intro k id _
    refine ⟨max n k, le_max_right n k, fun requested => ?_⟩
    have rests := resting (max n k) (le_max_left n k) id
    rw [requested] at rests
    cases rests
  · exact ⟨n, fun m after id => (later m after).2 id _⟩
  · exact fun _ _ id _ _ _ => ⟨n, fun m after => resting m after id⟩

/-- One unit is waited for, another task is queued. -/
def oneRuns : List Act :=
  firstStart ++ [.submit "a" (.keyed []), .tick "" none, .task "a" .startBegin, .task "a" .accept,
    .task "a" (.startReturn 1), .task "a" .waitBegin, .submit "b" (.keyed [])]

/-- The shutdown has no patience: it cancels the queued task and kills the unit. -/
def oneKilled : List Act :=
  [.loopEnd, .closing .scheduler, .closing .drain, .task "a" (.stop .cancelDone),
    .closing .gathered, .closing .killed,
    .task "a" (.exit (.code 137)), .task "a" .waitReturn, .task "a" (.waitEvaluated .nothing),
      .clock "2026" 2,
    .closing (.confirm .wake)]

/-- The queued task is started by three turns. A shutdown in their place kills the unit, whose end
its waiter records. -/
theorem loop_survives_killed : ∃ s t,
    ∃ e : Execution (Guarded (Step (.plain .systemd)) (Unhindered (.plain .systemd))), ∃ n,
    Run (Guarded (Step (.plain .systemd)) (Faultless (.plain .systemd)))
    (.initial "boot" "2026" .missing) oneRuns s ∧
    Run (Step (.plain .systemd)) s [.tick "1" none, .tick "2" none, .tick "3" none] t ∧ t.loop = .live ∧
    (∀ brief ∈ t.db.briefs, brief.state = .queued → brief.mutexKeys = [] →
      ∃ limit, (Config.plain .systemd).maxConcurrency = some limit ∧ limit ≤ t.db.activeCount) ∧
    Step (.plain .systemd) s (.shutdown 0) (e.state 0) ∧ Fairly e ∧
    (e.state n).phase = .closing .returned ∧ ∀ id, ¬ (e.state n).db.Pends id := by
  have evaluated : (checkedSteps (.plain .systemd) System.unhindered
    (.initial "boot" "2026" .missing) oneRuns).any (fun s =>
      (s.phase.isServing && s.db.queuedCount = 1 &&
        ["1", "2", "3"].all (fun cutoff => (s.db.terminalTaskIdsBefore cutoff).isEmpty)) &&
      (step (.plain .systemd) s (.shutdown 0)).any (fun middle =>
        (checkedSteps (.plain .systemd) System.unhindered middle oneKilled).any (fun last =>
          last.phase.hasReturned && last.loop = .finished && last.cells.all Cell.ceased))) = true := by
    decide +kernel
  obtain ⟨s, ran, facts⟩ := Option.any_eq_true _ _ |>.mp evaluated
  obtain ⟨turns, closes⟩ := Bool.and_eq_true _ _ |>.mp facts
  rw [Bool.and_eq_true, Bool.and_eq_true] at turns
  obtain ⟨⟨isServing, one⟩, none_ended⟩ := turns
  obtain ⟨middle, shuts, winds⟩ := Option.any_eq_true _ _ |>.mp closes
  obtain ⟨last, closed, ended⟩ := Option.any_eq_true _ _ |>.mp winds
  rw [Bool.and_eq_true, Bool.and_eq_true] at ended
  obtain ⟨⟨isReturned, isFinished⟩, cells⟩ := ended
  have ceased : Ceased last :=
    ⟨Phase.hasReturned_iff.mp isReturned, of_decide_eq_true isFinished, (Dict.all_iff _ rfl).mp cells⟩
  have mindful := checked_run
    (fun s act passed => (@unhindered_sound (.plain .systemd) s act passed).toMindful) ran
  have run : Run (Guarded (Step (.plain .systemd)) (Faultless (.plain .systemd))) _ oneRuns s :=
    mindful.mono (fun stepped => ⟨stepped.1, stepped.2.toFaultless⟩)
  obtain ⟨e, begins, idles⟩ := Execution.exists_of_run (checked_run unhindered_sound closed)
    (idling (.plain .systemd) last) (by simp [idling])
  have fairly := fairly_of_ceased ceased idles
  have survives := loop_survives run
  obtain ⟨t, ticks, _, live, starts⟩ :=
    survives.1 (Phase.isServing_iff.mp isServing) ["1", "2", "3"] (fun cutoff member => by
    rw [List.isEmpty_iff.mp (List.all_eq_true.mp none_ended cutoff member)]
    exact Nat.zero_le _)
  obtain ⟨n, returned, left⟩ := survives.2.2.2 mindful 0 e (begins ▸ shuts) fairly
  refine ⟨s, t, e, n, run, ticks, live, starts ?_, begins ▸ shuts, fairly, returned, left⟩
  rw [of_decide_eq_true one]
  decide

/-- The first call of a turn fails. No turn follows it, and the shutdown raises without having touched
the queued task. -/
theorem failed_turn_strands : ∃ s t row,
    Run (Step (.plain .systemd)) (.initial "boot" "2026" .missing)
      (firstStart ++ [.submit "a" (.keyed []), .tick "" (some 0)]) s ∧ s.phase = .serving ∧
    (∀ cutoff faults u, ¬ Step (.plain .systemd) s (.tick cutoff faults) u) ∧
    Run (Step (.plain .systemd)) s [.shutdown 60, .closing .scheduler] t ∧ t.phase = .closing .raised ∧
    t.db.getTask "a" = some row ∧ row.state = .queued := by
  have evaluated : (steps (.plain .systemd) (.initial "boot" "2026" .missing)
      (firstStart ++ [.submit "a" (.keyed []), .tick "" (some 0)])).any (fun s =>
        s.phase.isServing && s.loop = .failed &&
        (steps (.plain .systemd) s [.shutdown 60, .closing .scheduler]).any (fun t =>
          t.phase.hasRaised &&
          (t.db.getTask "a").any (fun row => row.state = .queued))) = true := by
    decide +kernel
  obtain ⟨s, ran, facts⟩ := Option.any_eq_true _ _ |>.mp evaluated
  simp only [Bool.and_eq_true] at facts
  obtain ⟨⟨isServing, failed⟩, closes⟩ := facts
  obtain ⟨t, closed, facts⟩ := Option.any_eq_true _ _ |>.mp closes
  rw [Bool.and_eq_true] at facts
  obtain ⟨isRaised, left⟩ := facts
  obtain ⟨row, found, queued⟩ := Option.any_eq_true _ _ |>.mp left
  have serving : s.phase = .serving := Phase.isServing_iff.mp isServing
  refine ⟨s, t, row, steps_run ran, serving, fun cutoff faults u stepped => ?_, steps_run closed,
    Phase.hasRaised_iff.mp isRaised, found, of_decide_eq_true queued⟩
  unfold Step step at stepped
  rw [serving] at stepped
  dsimp only at stepped
  rw [of_decide_eq_true failed, if_neg (by simp)] at stepped
  cases stepped

end Survival
end LocalFlow
