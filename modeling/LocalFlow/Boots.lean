import LocalFlow.Service.Booting

/-! The boot of the host a task was launched in, and what every later start of the controller makes
of it: the boot id may be unreadable, and the receipt of the last boot may be missing or invalid. -/
namespace LocalFlow
open Transition
variable {config : Config} {id : TaskId} {recovery : Recovery}

/-- The start of a task: the boot of the host at that time, and what the receipt said. -/
structure Launch where
  boot : String
  receipt : Receipt

/-- The receipt named no other boot when the task was launched. -/
def Launch.Timed (launch : Launch) : Prop :=
  ∀ before, launch.receipt = .recorded before → before = launch.boot

/-- The boot a receipt names. -/
def Receipt.boot? : Receipt → Option String
  | .recorded boot => some boot
  | .missing | .invalid => none

def System.isActive (s : System) (id : TaskId) : Bool :=
  (s.db.getTask id).any (fun row => row.state.active)

/-- The controller on its host. `boots` and `launched` are history variables: the boot ids seen so
far, and how each task was launched. -/
structure Hosted where
  system : System
  boots : List String
  launched : TaskId → Option Launch

/-- What happens to a controller or, while none runs, to its receipt. -/
inductive HostAct where
  | act (act : Act)
  | spoil (receipt : Receipt)

namespace Hosted

def initial (boot wall : String) (receipt : Receipt) : Hosted :=
  ⟨.initial boot wall receipt, boot :: receipt.boot?.toList, fun _ => none⟩

/-- The host after a step of the controller. A task is launched when it becomes active. -/
def moved (h : Hosted) (boots : List String) (t : System) : Hosted where
  system := t
  boots
  launched id := if t.isActive id && !h.system.isActive id then
    some ⟨h.system.boot, h.system.receipt⟩ else h.launched id

/-- One step. No boot id comes again. -/
def step (config : Config) (h : Hosted) : HostAct → Option Hosted
  | .act (.reboot boot) => if boot ∈ h.boots then none else
    (LocalFlow.step config h.system (.reboot boot)).map (h.moved (boot :: h.boots))
  | .act act => (LocalFlow.step config h.system act).map (h.moved h.boots)
  | .spoil receipt =>
    match h.system.phase, receipt with
    | .down, .missing | .down, .invalid => some { h with system := { h.system with receipt } }
    | _, _ => none

/-- Several steps in a row. -/
def steps (config : Config) : Hosted → List HostAct → Option Hosted
  | h, [] => some h
  | h, act :: rest => (h.step config act).bind (fun k => steps config k rest)

end Hosted

def HostStep (config : Config) (h : Hosted) (act : HostAct) (k : Hosted) : Prop :=
  h.step config act = some k

variable {h k : Hosted} {act : HostAct}

theorem hosted_run {acts : List HostAct} (stepped : Hosted.steps config h acts = some k) :
    Run (HostStep config) h acts k := by
  induction acts generalizing h with
  | nil =>
    cases stepped
    exact .nil _
  | cons act rest ih =>
    obtain ⟨middle, first, later⟩ := Option.bind_eq_some_iff.mp stepped
    exact .cons first (ih later)

/-- The host restarts, the controller moves, or the receipt is lost. -/
theorem hosted_cases (stepped : HostStep config h act k) :
    (∃ boot, act = .act (.reboot boot) ∧ boot ∉ h.boots ∧
      k = h.moved (boot :: h.boots) (h.system.reboot config boot)) ∨
    (∃ a t, act = .act a ∧ (∀ boot, a ≠ .reboot boot) ∧ Step config h.system a t ∧
      k = h.moved h.boots t) ∨
    h.system.phase = .down ∧ ∃ receipt, act = .spoil receipt ∧ receipt.boot? = none ∧
      k = { h with system := { h.system with receipt } } := by
  unfold HostStep Hosted.step at stepped
  split at stepped
  · rename_i boot
    split at stepped
    · cases stepped
    · rename_i fresh
      obtain ⟨t, moved, rfl⟩ := Option.map_eq_some_iff.mp stepped
      unfold step at moved
      cases moved
      exact .inl ⟨boot, rfl, fresh, rfl⟩
  · rename_i a stays
    obtain ⟨t, moved, rfl⟩ := Option.map_eq_some_iff.mp stepped
    exact .inr (.inl ⟨a, t, rfl, stays, moved, rfl⟩)
  · split at stepped
    · rename_i phase
      cases stepped
      exact .inr (.inr ⟨phase, .missing, rfl, rfl, rfl⟩)
    · rename_i phase
      cases stepped
      exact .inr (.inr ⟨phase, .invalid, rfl, rfl, rfl⟩)
    · cases stepped

section Invariant

theorem isActive_iff {s : System} : s.isActive id = true ↔
    ∃ row, s.db.getTask id = some row ∧ row.state.active = true := by
  unfold System.isActive
  rw [Option.any_eq_true]

namespace Hosted

/-- The task was launched in the boot the host is in. -/
def Here (h : Hosted) (id : TaskId) : Prop :=
  ∃ launch, h.launched id = some launch ∧ launch.boot = h.system.boot

/-- Every active task was launched in the boot the host is in. -/
def Present (h : Hosted) : Prop := ∀ id, h.system.isActive id = true → h.Here id

/-- What `recover` knows of the host, and what it has not decided yet. -/
structure Retrieves (h : Hosted) (recovery : Recovery) : Prop where
  boot : ∀ now, recovery.bootId = some now → now = h.system.boot
  compared : recovery.hostRestarted = true ↔ ∃ now before, recovery.bootId = some now ∧
    h.system.receipt = .recorded before ∧ now ≠ before
  point : recovery.hostRestarted = true → recovery.point = .next
  running : ∀ task completed, recovery.point = .probing task completed (some true) → h.Here task.id
  awaits : ∀ id row, h.system.db.getTask id = some row → row.state.active = true →
    recovery.Awaits row ∨ h.Here id

def Dates (h : Hosted) : Phase → Prop
  | .down => True
  | .recovering recovery => h.Retrieves recovery
  | .serving | .closing _ => h.Present

end Hosted

/-- What the receipt says of the launches. A launch under a receipt that names another boot is the
only one the receipt is wrong about. -/
structure Dated (h : Hosted) : Prop where
  sound : Sound h.system
  boot : h.system.boot ∈ h.boots
  receipt : ∀ before, h.system.receipt = .recorded before → before ∈ h.boots
  boots : ∀ id launch, h.launched id = some launch → launch.boot ∈ h.boots
  launched : ∀ id, h.system.isActive id = true → ∃ launch, h.launched id = some launch
  here : ∀ id, h.Here id ∨ Vacant (h.system.cells.get id)
  present : h.system.receipt = .recorded h.system.boot → h.Present
  stale : ∀ before id launch, h.system.receipt = .recorded before → before ≠ h.system.boot →
    h.launched id = some launch → launch.boot = h.system.boot → launch.receipt = .recorded before
  phase : h.Dates h.system.phase

theorem dated_initial (boot wall : String) (receipt : Receipt) :
    Dated (.initial boot wall receipt) where
  sound := sound_initial boot wall receipt
  boot := List.mem_cons_self
  receipt before isReceipt := by
    change receipt = .recorded before at isReceipt
    rw [isReceipt]
    exact List.mem_cons_of_mem _ List.mem_cons_self
  boots := by simp [Hosted.initial]
  launched _ active := by cases active
  here _ := .inr vacant_fresh
  present _ _ active := by cases active
  stale := by simp [Hosted.initial]
  phase := trivial

section Moves
variable {boots : List String} {t : System}

theorem launched_moved {launch : Launch} (launched : (h.moved boots t).launched id = some launch) :
    h.launched id = some launch ∨ launch = ⟨h.system.boot, h.system.receipt⟩ := by
  change (if _ then _ else _) = _ at launched
  split at launched
  · exact .inr (Option.some.inj launched).symm
  · exact .inl launched

/-- While the host goes on, what was launched here stays so. -/
theorem Hosted.Here.moved (here : h.Here id) (same : t.boot = h.system.boot) :
    (h.moved boots t).Here id := by
  obtain ⟨launch, isLaunch, boot⟩ := here
  unfold Hosted.Here Hosted.moved
  dsimp only
  split
  · exact ⟨_, rfl, same.symm⟩
  · exact ⟨launch, isLaunch, boot.trans same.symm⟩

/-- A task that becomes active is launched here. -/
theorem here_active (same : t.boot = h.system.boot) (active : t.isActive id = true) :
    h.system.isActive id = true ∨ (h.moved boots t).Here id := by
  cases before : h.system.isActive id with
  | true => exact .inl rfl
  | false =>
    right
    unfold Hosted.Here Hosted.moved
    dsimp only
    rw [active, before]
    exact ⟨_, rfl, same.symm⟩

theorem Hosted.Present.moved (present : h.Present) (same : t.boot = h.system.boot) :
    (h.moved boots t).Present := by
  intro id active
  obtain before | here := here_active same active
  · exact (present id before).moved same
  · exact here

/-- The rows `recover` has to visit when it begins are those that are active. -/
theorem retrieves_begin (readable : Bool) : ∀ recovery,
    (h.system.recoverBegin readable).phase = .recovering recovery →
    (h.moved boots (h.system.recoverBegin readable)).Retrieves recovery := by
  intro recovery phase
  cases phase
  refine ⟨?_, ?_, fun _ => rfl, fun _ _ impossible => absurd impossible (by simp),
    fun id row found active => ?_⟩
  · intro now isNow
    cases readable with
    | false => cases isNow
    | true => exact (Option.some.inj isNow).symm
  · cases readable with
    | false => simp
    | true =>
      have stays : (h.moved boots (h.system.recoverBegin true)).system.receipt = h.system.receipt := rfl
      rw [stays]
      cases h.system.receipt <;> simp
  · exact .inl (awaits_begin found active _ _)

theorem Dated.rebooted (dated : Dated h) {boot : String} (fresh : boot ∉ h.boots) :
    Dated (h.moved (boot :: h.boots) (h.system.reboot config boot)) where
  sound := by
    have stepped : Step config h.system (.reboot boot) (h.system.reboot config boot) := rfl
    exact dated.sound.step stepped
  boot := List.mem_cons_self
  receipt before isReceipt := List.mem_cons_of_mem _ (dated.receipt before isReceipt)
  boots id launch launched := by
    obtain old | rfl := launched_moved launched
    · exact List.mem_cons_of_mem _ (dated.boots id launch old)
    · exact List.mem_cons_of_mem _ dated.boot
  launched id active := by
    have before : h.system.isActive id = true := active
    obtain ⟨launch, isLaunch⟩ := dated.launched id before
    refine ⟨launch, ?_⟩
    change (if _ then _ else _) = _
    rw [if_neg (by rw [before]; simp)]
    exact isLaunch
  here _ := .inr (reboot_vacant boot)
  present named := absurd (dated.receipt boot named) fresh
  stale before id launch _ _ launched same := by
    refine absurd ?_ fresh
    change launch.boot = boot at same
    rw [← same]
    obtain old | rfl := launched_moved launched
    · exact dated.boots id launch old
    · exact dated.boot
  phase := trivial

/-- Losing the receipt loses only what it says. -/
theorem Dated.spoiled (dated : Dated h) (down : h.system.phase = .down) {receipt : Receipt}
    (spoilt : receipt.boot? = none) : Dated { h with system := { h.system with receipt } } where
  sound := ⟨dated.sound.agrees, dated.sound.idle, dated.sound.visits⟩
  boot := dated.boot
  receipt before isReceipt := by
    change receipt = .recorded before at isReceipt
    rw [isReceipt] at spoilt
    cases spoilt
  boots := dated.boots
  launched := dated.launched
  here := dated.here
  present named := by
    change receipt = .recorded h.system.boot at named
    rw [named] at spoilt
    cases spoilt
  stale before _ _ isReceipt := by
    change receipt = .recorded before at isReceipt
    rw [isReceipt] at spoilt
    cases spoilt
  phase := by
    dsimp only
    rw [down]
    trivial

end Moves

section Steps
variable {t : System} {a : Act}

/-- A recovery goes on: what it knows of the host stays, and no active task drops out of its walk. -/
theorem Hosted.Retrieves.goes (retrieves : h.Retrieves recovery) (host : t.host = h.system.host)
    {after : Recovery} (bootId : after.bootId = recovery.bootId)
    (restarted : after.hostRestarted = recovery.hostRestarted)
    (point : recovery.hostRestarted = true → after.point = .next)
    (running : ∀ task completed, after.point = .probing task completed (some true) → h.Here task.id)
    (awaits : ∀ id old new, h.system.db.getTask id = some old → t.db.getTask id = some new →
      new.state.active = true → recovery.Awaits old → after.Awaits new ∨ h.Here id) :
    (h.moved h.boots t).Retrieves after := by
  have boot : t.boot = h.system.boot := congrArg Prod.fst host
  have receipt : t.receipt = h.system.receipt := congrArg Prod.snd host
  refine ⟨fun now isNow => ?_, ?_, ?_, fun task completed isPoint => ?_, fun id new found active => ?_⟩
  · rw [bootId] at isNow
    exact (retrieves.boot now isNow).trans boot.symm
  · change _ ↔ ∃ now before, _ ∧ t.receipt = _ ∧ _
    rw [restarted, bootId, receipt]
    exact retrieves.compared
  · rw [restarted]
    exact point
  · exact (running task completed isPoint).moved boot
  · obtain before | here := @here_active _ h h.boots _ boot (isActive_iff.mpr ⟨new, found, active⟩)
    · obtain ⟨old, stored, wasActive⟩ := isActive_iff.mp before
      obtain waits | here := retrieves.awaits id old stored wasActive
      · exact (awaits id old new stored found active waits).imp_right (fun here => here.moved boot)
      · exact .inr (here.moved boot)
    · exact .inr here

/-- Tasks move while `recover` is elsewhere. -/
theorem Hosted.Retrieves.kept (retrieves : h.Retrieves recovery) (host : t.host = h.system.host)
    (updates : Updates h.system.db t.db) : (h.moved h.boots t).Retrieves recovery := by
  refine retrieves.goes host rfl rfl retrieves.point retrieves.running ?_
  intro id old new stored found _ waits
  refine .inl (waits.congr (updates.sortKey stored found) ?_)
  exact (Tasks.get?_mem found).2.trans (Tasks.get?_mem stored).2.symm

/-- A task `recover` finds running was launched in this boot. -/
theorem Dated.running (dated : Dated h) {reference : Option String}
    (running : isRunning config.backend reference (h.system.cells.get id).tree = true) : h.Here id := by
  obtain here | vacant := dated.here id
  · exact here
  · unfold isRunning at running
    rw [vacant.owns] at running
    split at running
    · cases running
    · simp at running

/-- `recover` walks on. -/
theorem Dated.walked (dated : Dated h) (retrieves : h.Retrieves recovery) {a : RecoverAct}
    (stepped : h.system.recoverStep config recovery a = some t) {after : Recovery}
    (isAfter : t.phase = .recovering after) (walked : Walked config h.system recovery after)
    (host : t.host = h.system.host) : (h.moved h.boots t).Retrieves after := by
  refine retrieves.goes host walked.bootId walked.hostRestarted ?_ ?_ ?_
  · intro restarted
    have isNext := retrieves.point restarted
    have walks := walked.point
    generalize after.point = reached at walks
    cases walks with
    | next => rfl
    | probe _ _ _ _ _ kept =>
      rw [restarted] at kept
      cases kept
    | asked _ _ point | ended _ _ point =>
      rw [isNext] at point
      cases point
  · intro task completed isPoint
    have walks := walked.point
    generalize isReached : after.point = reached at walks isPoint
    subst isPoint
    generalize isAnswer : some true = answer at walks
    cases walks with
    | probe => cases isAnswer
    | asked => exact dated.running (Option.some.inj isAnswer).symm
  · intro id old new stored found active waits
    obtain awaits | ⟨task, completed, point, rfl⟩ :=
      recoverStep_awaits stepped isAfter stored found active waits
    · exact .inl awaits
    · exact .inr (retrieves.running task completed point)

/-- A recovery that is over leaves only tasks of this boot. -/
theorem Hosted.Retrieves.present (retrieves : h.Retrieves recovery) (passed : recovery.Over) :
    h.Present := by
  intro id active
  obtain ⟨row, found, live⟩ := isActive_iff.mp active
  exact (retrieves.awaits id row found live).resolve_left (passed.awaits row)

/-- Where a step leaves the controller, and what it knows there. -/
theorem Dated.dates (dated : Dated h) (stays : ∀ boot, a ≠ .reboot boot)
    (stepped : Step config h.system a t) :
    (h.moved h.boots t).Dates t.phase := by
  have boot := (receipt_step stays stepped).1
  by_cases survives : a.survives = true
  swap
  · rw [(crash_step (by simpa using survives) stepped).1]
    trivial
  have dates := dated.phase
  cases phase : h.system.phase with
  | down =>
    obtain ⟨_, _, slot, _, _, rfl⟩ | ⟨_, _, down, _⟩ | dies | ⟨readable, rfl⟩ := down_step phase stepped
    · change Hosted.Dates _ h.system.phase
      rw [phase]
      trivial
    · rw [down]
      trivial
    · rw [survives] at dies
      cases dies
    · obtain ⟨_, rfl⟩ := recoverBegin_step stepped
      exact retrieves_begin readable _ rfl
  | recovering recovery =>
    rw [phase] at dates
    obtain ⟨target, _, slot, _, moved, rfl⟩ | ⟨_, _, db, _, same, isBoot, isReceipt⟩ | ⟨a, rfl,
      recovered⟩ :=
      recovering_step phase survives stepped
    · change Hosted.Dates _ h.system.phase
      rw [phase]
      exact dates.kept rfl (update_taskStep (h.system.slot target) moved).updates
    · rw [same]
      refine dates.kept (Prod.ext isBoot isReceipt) ?_
      rw [db]
    · obtain down | ⟨serving, fails, cutoff, faults, rfl⟩ | ⟨after, isAfter, walked⟩ :=
        recoverStep_walked recovered
      · rw [down]
        trivial
      · rw [serving]
        exact (dates.present (finish_over recovered).1).moved boot
      · rw [isAfter]
        refine dated.walked dates recovered isAfter walked (host_recoverStep ?_ recovered)
        rintro fails cutoff faults rfl
        obtain ⟨_, rfl⟩ := finish_over recovered
        obtain down | serving := recoverFinish_phase fails cutoff faults
        · exact absurd (isAfter.symm.trans down) (by simp)
        · exact absurd (isAfter.symm.trans serving) (by simp)
  | serving | closing =>
    rw [phase] at dates
    have present : (h.moved h.boots t).Present := Hosted.Present.moved dates boot
    obtain same | serving | down | ⟨readable, rfl⟩ | ⟨a, rfl⟩ | ⟨a, rfl⟩ | ⟨_, timeout, closing⟩ :=
      phase_step stepped
    · rw [same, phase]
      exact present
    · rw [serving]
      exact present
    · rw [down]
      trivial
    · obtain ⟨down, _⟩ := recoverBegin_step stepped
      rw [phase] at down
      cases down
    · obtain ⟨recovery, recovering, _⟩ := recover_step stepped
      rw [phase] at recovering
      cases recovering
    · obtain ⟨shutdown, _, closed⟩ := closing_step stepped
      obtain ⟨next, isNext⟩ := closing_shutdownStep closed
      rw [isNext]
      exact present
    · rw [closing]
      exact present

theorem Dated.acts (dated : Dated h) (stays : ∀ boot, a ≠ .reboot boot)
    (stepped : Step config h.system a t) :
    Dated (h.moved h.boots t) := by
  obtain ⟨boot, written⟩ := receipt_step stays stepped
  have retrieves : ∀ recovery, h.system.phase = .recovering recovery → h.Retrieves recovery := by
    intro recovery phase
    have dates := dated.phase
    rw [phase] at dates
    exact dates
  refine ⟨dated.sound.step stepped, boot ▸ dated.boot, ?_, ?_, ?_, ?_, ?_, ?_,
    dated.dates stays stepped⟩
  · intro before isReceipt
    obtain same | ⟨recovery, now, phase, _, isNow, recorded⟩ := written
    · exact dated.receipt before (same ▸ isReceipt)
    · cases recorded.symm.trans isReceipt
      rw [(retrieves recovery phase).boot before isNow]
      exact dated.boot
  · intro id launch launched
    obtain old | rfl := launched_moved launched
    · exact dated.boots id launch old
    · exact dated.boot
  · intro id active
    obtain before | ⟨launch, isLaunch, _⟩ := @here_active _ h h.boots _ boot active
    · obtain ⟨launch, isLaunch⟩ := dated.launched id before
      unfold Hosted.moved
      dsimp only
      split
      · exact ⟨_, rfl⟩
      · exact ⟨launch, isLaunch⟩
    · exact ⟨launch, isLaunch⟩
  · intro id
    obtain here | vacant := dated.here id
    · exact .inl (here.moved boot)
    obtain vacant | ⟨row, new, stored, queued, found, starting⟩ | ⟨recovery, task, completed, phase,
      point, rfl⟩ :=
      (moved_step stepped id).vacant vacant
    · exact .inr vacant
    · left
      have active : t.isActive id = true := isActive_iff.mpr ⟨new, found, by rw [starting]; rfl⟩
      refine (here_active boot active).resolve_left (fun before => ?_)
      obtain ⟨old, isOld, live⟩ := isActive_iff.mp before
      rw [stored] at isOld
      cases isOld
      rw [queued] at live
      cases live
    · exact .inl (((retrieves recovery phase).running task completed point).moved boot)
  · intro named
    obtain same | ⟨recovery, now, phase, passed, _, _⟩ := written
    · refine (dated.present ?_).moved boot
      exact (same.symm.trans named).trans (congrArg _ boot)
    · exact ((retrieves recovery phase).present passed).moved boot
  · intro before id launch isReceipt apart launched same
    obtain kept | ⟨recovery, now, phase, _, isNow, recorded⟩ := written
    · obtain old | rfl := launched_moved launched
      · exact dated.stale before id launch (kept.symm.trans isReceipt)
          (fun isBoot => apart (isBoot.trans boot.symm)) old
          (same.trans boot)
      · exact kept.symm.trans isReceipt
    · cases recorded.symm.trans isReceipt
      exact absurd (((retrieves recovery phase).boot before isNow).trans boot.symm) apart

theorem Dated.step (dated : Dated h) (stepped : HostStep config h act k) : Dated k := by
  obtain ⟨boot, _, fresh, rfl⟩ | ⟨a, t, _, stays, moved, rfl⟩ | ⟨down, receipt, _, spoilt, rfl⟩ :=
    hosted_cases stepped
  · exact dated.rebooted fresh
  · exact dated.acts stays moved
  · exact dated.spoiled down spoilt

theorem dated_run {boot wall : String} {receipt : Receipt} {acts : List HostAct}
    (run : Run (HostStep config) (.initial boot wall receipt) acts h) : Dated h :=
  run.invariant (fun dated stepped => dated.step stepped) (dated_initial boot wall receipt)

end Steps

end Invariant

section Classification

/-- `recover` has read the boot of the host, and a receipt to compare it with. -/
def System.compares (s : System) : Bool :=
  match s.phase, s.receipt with
  | .recovering recovery, .recorded _ => recovery.bootId.isSome
  | _, _ => false

theorem compares_iff {s : System} (phase : s.phase = .recovering recovery) : s.compares = true ↔
    ∃ now before, recovery.bootId = some now ∧ s.receipt = .recorded before := by
  unfold System.compares
  rw [phase]
  cases s.receipt <;> simp [Option.isSome_iff_exists]

theorem LostToRestart.done {s t : System} (lost : LostToRestart s t id) : Done (t.db.getTask id) := by
  obtain ⟨new, found, isLost⟩ := lost.lost
  exact done_terminal found (by rw [isLost]; rfl)

/-- The end of `recover` ends no task. -/
theorem finish_keeps {s t : System} {fails : Bool} {cutoff : String} {faults : Option Nat}
    (stepped : Step config s (.recover (.finish fails cutoff faults)) t)
    (active : s.isActive id = true) :
    ¬ Done (t.db.getTask id) := by
  obtain ⟨row, found, live⟩ := isActive_iff.mp active
  have kept : ∀ {u : System}, Kept config s u id → ¬ Done (u.db.getTask id) := by
    intro u kept done
    obtain ⟨_, new, isNew, still, _⟩ := kept.active found live
    have idle := done new isNew
    rw [still] at idle
    cases idle
  obtain ⟨recovery, phase, recovered⟩ := recover_step stepped
  obtain ⟨passed, _⟩ := finish_over recovered
  cases moved_step stepped id with
  | kept unchanged => exact kept unchanged
  | crashed middle unchanged row =>
    rw [row]
    exact kept unchanged
  | started serving =>
    rw [phase] at serving
    cases serving
  | enrolled _ missing =>
    rw [found] at missing
    cases missing
  | own _ _ isAct | asked _ _ isAct | closed _ isAct | confirmed _ _ _ _ _ isAct => cases isAct
  | settled after a isAct isPhase ends =>
    cases isAct
    unfold Recovery.Ends at ends
    split at ends
    any_goals contradiction
  | watched after _ _ isPhase point =>
    rw [phase] at isPhase
    cases isPhase
    rw [passed.point] at point
    cases point

/-- Whatever starts, crashes and reboots came before, and whichever of them could read the boot id
or had lost its receipt: a task is watched only in the boot it was launched in. A recovery that can
compare the boots puts the end of a task down to a restart if the task was launched in another boot
and, unless the receipt was already wrong at the launch, only then; no such task is left when it is
over. A recovery that cannot compare them never does. -/
theorem restart_classified {boot wall : String} {receipt : Receipt} {acts : List HostAct}
    {a : RecoverAct}
    (run : Run (HostStep config) (.initial boot wall receipt) acts h)
    (stepped : HostStep config h (.act (.recover a)) k) :
    (∀ id, (k.system.cells.get id).waiter.isSome = true →
      ∃ launch, k.launched id = some launch ∧ launch.boot = k.system.boot) ∧
    ∀ id, h.system.isActive id = true → ∃ launch, h.launched id = some launch ∧
      (LostToRestart h.system k.system id → h.system.compares = true ∧
        (launch.Timed → launch.boot ≠ h.system.boot)) ∧
      (h.system.compares = true → launch.boot ≠ h.system.boot → Done (k.system.db.getTask id) →
        LostToRestart h.system k.system id) ∧
      (k.system.phase = .serving → launch.boot = h.system.boot) := by
  have dated := dated_run run
  refine ⟨fun id watched => ?_, fun id active => ?_⟩
  · refine ((dated.step stepped).here id).resolve_right (fun vacant => ?_)
    rw [vacant.waiter] at watched
    cases watched
  obtain ⟨launch, isLaunch⟩ := dated.launched id active
  obtain ⟨boot, same, _⟩ | ⟨b, t, same, _, moved, rfl⟩ | ⟨_, receipt, same, _⟩ := hosted_cases stepped
  · cases same
  · cases same
    obtain ⟨recovery, phase, recovered⟩ := recover_step moved
    have retrieves : h.Retrieves recovery := by
      have dates := dated.phase
      rw [phase] at dates
      exact dates
    have launchedHere : h.Here id → launch.boot = h.system.boot := by
      rintro ⟨other, isOther, boot⟩
      cases isLaunch.symm.trans isOther
      exact boot
    obtain ⟨row, found, live⟩ := isActive_iff.mp active
    have ended : Done (t.db.getTask id) → _ := fun done =>
      recoverStep_ends (fun fails cutoff faults isFinish =>
      finish_keeps (isFinish ▸ moved) active done) recovered found live done
    refine ⟨launch, isLaunch, fun lost => ?_, fun compares elsewhere done => ?_, fun serving => ?_⟩
    · obtain ⟨restarted, _⟩ | ⟨_, impossible⟩ := ended lost.done
      · obtain ⟨now, before, isNow, isReceipt, apart⟩ := retrieves.compared.mp restarted
        refine ⟨(compares_iff phase).mpr ⟨now, before, isNow, isReceipt⟩, fun timed same => apart ?_⟩
        have isBoot := retrieves.boot now isNow
        have stale := dated.stale before id launch isReceipt
          (fun other => apart (isBoot.trans other.symm))
          isLaunch same
        rw [isBoot, timed before stale, same]
      · exact absurd lost impossible
    · obtain ⟨_, lost⟩ | ⟨kept, _⟩ := ended done
      · exact lost
      · obtain ⟨now, before, isNow, isReceipt⟩ := (compares_iff phase).mp compares
        refine absurd (launchedHere (dated.present ?_ id active)) elsewhere
        -- the boots compared are the same, or the recovery would end the task for the restart
        by_contra apart
        have restarted : recovery.hostRestarted = true := by
          refine retrieves.compared.mpr ⟨now, before, isNow, isReceipt, fun same => apart ?_⟩
          rw [isReceipt, ← same, retrieves.boot now isNow]
        have impossible := kept (retrieves.point restarted)
        rw [restarted] at impossible
        cases impossible
    · obtain down | ⟨_, fails, cutoff, faults, rfl⟩ | ⟨after, isAfter, _⟩ :=
        recoverStep_walked recovered
      · cases serving.symm.trans down
      · exact launchedHere (retrieves.present (finish_over recovered).1 id active)
      · cases serving.symm.trans isAfter
  · cases same

/-- A task whose unit runs when the host restarts. -/
def restartedUnit : List HostAct :=
  let acts : List Act := firstStart ++ [.submit "a" (.keyed ["port"]), .tick "" none,
    .task "a" .startBegin, .task "a" .accept, .task "a" (.startReturn 0), .task "a" .waitBegin,
    .reboot "boot2"]
  acts.map .act

theorem not_active {s : System} (gone : s.isActive id = false) : Done (s.db.getTask id) := by
  intro row found
  cases live : row.state.active with
  | false => rfl
  | true => rw [isActive_iff.mpr ⟨row, found, live⟩] at gone; cases gone

theorem restart_classified_rebooted : ∃ h k launch,
    HostStep (.plain .systemd) h (.act (.recover .next)) k ∧ h.launched "a" = some launch ∧
    launch.boot ≠ h.system.boot ∧ LostToRestart h.system k.system "a" := by
  have started : (Hosted.steps (.plain .systemd) (.initial "boot" "2026" .missing)
      (restartedUnit ++ [.act (.recoverBegin true)])).any (fun h =>
        h.system.isActive "a" && h.system.compares &&
          (h.launched "a").all (fun l => l.boot ≠ h.system.boot) &&
        (h.step (.plain .systemd) (.act (.recover .next))).any (fun k => !k.system.isActive "a")) =
          true := by
    decide +kernel
  obtain ⟨h, ran, facts⟩ := Option.any_eq_true _ _ |>.mp started
  simp only [Bool.and_eq_true] at facts
  obtain ⟨⟨⟨active, compares⟩, apart⟩, ends⟩ := facts
  obtain ⟨k, stepped, gone⟩ := Option.any_eq_true _ _ |>.mp ends
  obtain ⟨_, classified⟩ := restart_classified (hosted_run ran) stepped
  obtain ⟨launch, isLaunch, _, lost, _⟩ := classified "a" active
  have elsewhere : launch.boot ≠ h.system.boot := by
    rw [isLaunch] at apart
    exact of_decide_eq_true apart
  refine ⟨h, k, launch, stepped, isLaunch, elsewhere, lost compares elsewhere (not_active ?_)⟩
  simpa using gone

/-- Without a receipt, a task of an earlier boot is lost because its unit is gone. -/
theorem missing_receipt_unclassified : ∃ acts h k launch,
    Run (HostStep (.plain .systemd)) (.initial "boot" "2026" .missing) acts h ∧
    HostStep (.plain .systemd) h (.act (.recover .resume)) k ∧ h.launched "a" = some launch ∧
    launch.boot ≠ h.system.boot ∧ (∃ new, k.system.db.getTask "a" = some new ∧ new.state = .lost) ∧
    ¬ LostToRestart h.system k.system "a" := by
  have started : (Hosted.steps (.plain .systemd) (.initial "boot" "2026" .missing)
      (restartedUnit ++ [.spoil .missing, .act (.recoverBegin true), .act (.recover .next),
        .act (.recover .query)])).any (fun h =>
        (h.launched "a").any (fun l => l.boot ≠ h.system.boot) &&
        (h.step (.plain .systemd) (.act (.recover .resume))).any (fun k =>
          (k.system.db.getTask "a").any (fun new => new.state = .lost) &&
          k.system.db.restarts "a" = h.system.db.restarts "a")) = true := by
    decide +kernel
  obtain ⟨h, ran, facts⟩ := Option.any_eq_true _ _ |>.mp started
  rw [Bool.and_eq_true] at facts
  obtain ⟨launched, ends⟩ := facts
  obtain ⟨launch, isLaunch, elsewhere⟩ := Option.any_eq_true _ _ |>.mp launched
  obtain ⟨k, stepped, facts⟩ := Option.any_eq_true _ _ |>.mp ends
  rw [Bool.and_eq_true] at facts
  obtain ⟨lost, same⟩ := facts
  obtain ⟨new, found, isLost⟩ := Option.any_eq_true _ _ |>.mp lost
  refine ⟨_, h, k, launch, hosted_run ran, stepped, isLaunch, of_decide_eq_true elsewhere,
    ⟨new, found, of_decide_eq_true isLost⟩, fun restarted => ?_⟩
  have grown := restarted.restarted
  rw [of_decide_eq_true same] at grown
  exact absurd grown (Nat.lt_succ_self _).ne

end Classification
end LocalFlow
