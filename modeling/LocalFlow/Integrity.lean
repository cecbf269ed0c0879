import LocalFlow.Archive

/-! What the integrity record of a task log may be believed. -/
namespace LocalFlow
open Transition

namespace TaskLog

/-- The record says that nothing is missing. -/
def claims (log : TaskLog) : Bool := log.record.any IntegrityRecord.claims

end TaskLog

/-- The record is overwritten or at least removed. -/
def MarkOutcome.effective : MarkOutcome → Bool
  | .failed none false => false
  | _ => true

section Records
variable {log : TaskLog} {handle : LogHandle} {io : WriteIO} {data : List UInt8} {reason : String}
  {outcome : MarkOutcome}

theorem claims_of_complete (complete : log.outputIntegrity.complete = some true) :
    log.claims = true := by
  unfold TaskLog.outputIntegrity at complete
  split at complete
  · cases complete
  · unfold TaskLog.claims
    split at complete
    · rename_i isRecord
      cases complete
      rw [isRecord]
      rfl
    · cases complete
    · split at complete <;> cases complete

/-- A record that still claims completeness after a mark was neither overwritten nor removed. -/
theorem claims_mark (after : (log.mark reason outcome).claims = true) :
    log.claims = true ∧ outcome.effective = false := by
  unfold TaskLog.mark TaskLog.claims at after
  split at after
  · rename_i missing
    rw [missing] at after
    cases after
  · cases after
  · rename_i old torn removed isRecord
    cases removed with
    | true => cases after
    | false =>
      cases torn with
      | some torn =>
        have honest := torn.property
        simp [honest] at after
      | none =>
        refine ⟨?_, rfl⟩
        unfold TaskLog.claims
        rw [isRecord]
        simpa using after

/-- What a mark gives and appends and counts of markers keep, the end of a log at its limit gives. -/
theorem cut_rule {P : TaskLog → Prop} {remaining : Nat}
    (marked : P (log.mark "file_limit" (io.mark "file_limit")))
    (appended : ∀ log handle data, P log → P (LogHandle.append handle io log data).1.1)
    (counted : ∀ log : TaskLog, P log → P { log with markers := log.markers + 1 }) :
    P (handle.cut io log data remaining).1 := by
  unfold LogHandle.cut
  dsimp only
  by_cases nothing : remaining = 0
  · rw [if_pos nothing, if_pos rfl]
    exact appended _ _ _ (counted _ marked)
  · rw [if_neg nothing]
    have filled := appended _ { handle with stopped := true } (data.take remaining) marked
    split
    · exact appended _ _ _ (counted _ filled)
    · exact filled

theorem passed_append (log : TaskLog) (handle : LogHandle) (data : List UInt8) :
    (handle.append io log data).1.1.passed = log.passed := by
  have spec := @appends io log handle data
  generalize handle.append io log data = result at spec
  cases spec with
  | stored => rfl
  | broken => exact mark_passed

theorem passed_write : (handle.write io log data).1.passed = log.passed ++ data := by
  unfold LogHandle.write
  dsimp only
  split
  · rfl
  · rfl
  · exact mark_passed
  · exact passed_append _ _ _
  · refine @cut_rule _ _ io data (fun after => after.passed = log.passed ++ data) _ mark_passed ?_
      (fun _ same => same)
    exact fun log handle data same => (passed_append log handle data).trans same

/-- No append puts a claim into the record. -/
theorem claimed_append (log : TaskLog) (handle : LogHandle) (data : List UInt8)
    (after : (handle.append io log data).1.1.claims = true) : log.claims = true := by
  have spec := @appends io log handle data
  generalize handle.append io log data = result at spec after
  cases spec with
  | stored => exact after
  | broken => exact (claims_mark after).1

theorem claimed_write (after : (handle.write io log data).1.claims = true) : log.claims = true := by
  unfold LogHandle.write at after
  dsimp only at after
  split at after
  · exact after
  · exact after
  · exact (claims_mark after).1
  · exact claimed_append { log with passed := log.passed ++ data } _ _ after
  · revert after
    refine @cut_rule _ _ io data (fun after => after.claims = true → log.claims = true) _ ?_ ?_
      (fun _ kept => kept)
    · exact fun after => (claims_mark after).1
    · exact fun log handle data kept after => kept (claimed_append log handle data after)

/-- A write after which the record claims completeness has stored its data. -/
theorem claims_write (running : handle.stopped = false)
    (effective : ∀ reason, (io.mark reason).effective = true)
    (checked : handle.checks data = true → handle.keepFreeBytes ≠ 0 → io.free.isSome)
    (after : (handle.write io log data).1.claims = true) :
    (handle.write io log data).1.bytes = log.bytes ++ data ∧
    (handle.write io log data).1.record = log.record ∧
      (handle.write io log data).2.stopped = false := by
  have unmarked : ∀ {log : TaskLog} {reason : String},
    ¬ (log.mark reason (io.mark reason)).claims = true := by
    intro log reason after
    have ineffective := (claims_mark after).2
    rw [effective] at ineffective
    cases ineffective
  unfold LogHandle.write at after ⊢
  dsimp only at after ⊢
  have takes := takes_intake handle io.free data
  generalize handle.intake io.free data = intake at takes after ⊢
  cases takes with
  | ignored idle =>
    obtain rfl | stopped := idle
    · exact ⟨(List.append_nil _).symm, rfl, running⟩
    · rw [running] at stopped
      cases stopped
  | unchecked checks raised =>
    have known := checked checks.1 checks.2
    rw [raised] at known
    cases known
  | reserve => exact absurd after unmarked
  | whole =>
    have spec := @appends io { log with passed := log.passed ++ data } (handle.counted data) data
    dsimp only at after ⊢
    generalize (handle.counted data).append io { log with passed := log.passed ++ data } data =
      result at spec after ⊢
    cases spec with
    | stored file isBytes => exact ⟨isBytes, rfl, running⟩
    | broken => exact absurd after unmarked
  | cut =>
    refine absurd after ?_
    refine @cut_rule _ _ io data (fun after => ¬ after.claims = true) _ unmarked ?_ (fun _ kept => kept)
    exact fun log handle data kept after => kept (claimed_append log handle data after)

/-- A record that claims completeness was there before, or it is new and the file empty. -/
theorem claims_keeps {record : IntegrityRecord} (keeps : KeepsRecord log record)
    (claims : record.claims = true) :
    log.claims = true ∧ log.record = some record ∨
      log.record = none ∧ log.bytes = [] ∧ record = .health (some true) none := by
  obtain same | ⟨missing, rfl⟩ := keeps
  · refine .inl ⟨?_, same⟩
    rw [TaskLog.claims, same]
    exact claims
  · refine .inr ⟨missing, ?_⟩
    rw [LogHandle.firstRecord] at claims ⊢
    split at claims
    · rename_i empty
      exact ⟨List.length_eq_zero_iff.mp empty, if_pos empty⟩
    · cases claims

end Records

/-- Every byte counts: a record is only created for an empty file when nothing was passed before,
the free space is known, and a record that claims everything is overwritten or removed where the log
is marked. -/
def Accountable (a : Archive) : ArchiveAct → Prop
  | .start maxBytes _ io =>
    (a.log.record = none → a.log.bytes = [] → a.log.passed = []) ∧
    (a.log.claims = true → maxBytes ≠ 0 → maxBytes ≤ a.log.size → io.mark.effective = true)
  | .write n data io => a.log.claims = true → (∀ reason, (io.mark reason).effective = true) ∧
      ∀ handle, a.writers[n]? = some handle → handle.checks data = true → handle.keepFreeBytes ≠ 0 →
        io.free.isSome
  | .close _ => True

/-- What every accountable run keeps. -/
structure Accounted (a : Archive) : Prop where
  stored : a.log.claims = true → a.log.bytes = a.log.passed
  running : a.log.claims = true → ∀ handle ∈ a.writers, handle.stopped = false
  silent : a.log.claims = true → a.log.record = some (.health (some true) none)
  unopened : a.log.record = none → a.log.passed = [] → a.log.bytes = [] → a.writers = []

section Accounts
variable {a b : Archive} {act : ArchiveAct} {acts : List ArchiveAct} {handle : LogHandle}
  {io : WriteIO} {data : List UInt8}

theorem Accounted.start (accounted : Accounted a) {maxBytes keepFreeBytes : Nat} {io : OpenIO}
    (fresh : a.log.record = none → a.log.bytes = [] → a.log.passed = [])
    (marks : a.log.claims = true → maxBytes ≠ 0 → maxBytes ≤ a.log.size → io.mark.effective = true) :
    Accounted ⟨(LogHandle.opened a.log maxBytes keepFreeBytes io).1,
      a.writers ++ (LogHandle.opened a.log maxBytes keepFreeBytes io).2.toList⟩ := by
  have extended : (a.log.extend []).bytes = a.log.bytes := List.append_nil _
  have opening := opening_opened a.log maxBytes keepFreeBytes io
  generalize LogHandle.opened a.log maxBytes keepFreeBytes io = result at opening
  cases opening with
  | refused =>
    rw [Option.toList_none, List.append_nil]
    exact accounted
  | failed missing record left =>
    rw [Option.toList_none, List.append_nil]
    have created : ({ a.log.extend [] with record } : TaskLog).claims = true → a.log.bytes = [] ∧
        record = some (.health (some true) none) := fun claims => by
      obtain ⟨kept, same, claims⟩ := Option.any_eq_true _ _ |>.mp claims
      obtain rfl | not := left kept same
      · obtain ⟨_, was⟩ | ⟨_, empty, whole⟩ := claims_keeps (.inr ⟨missing, rfl⟩) claims
        · rw [missing] at was
          cases was
        · exact ⟨empty, by rw [← whole]; exact same⟩
      · rw [not] at claims
        cases claims
    refine ⟨fun claims => ?_, fun claims handle member => ?_, fun claims => (created claims).2,
      fun _ passed bytes => accounted.unopened missing passed (extended.symm.trans bytes)⟩
    · have empty := (created claims).1
      exact extended.trans (empty.trans (fresh missing empty).symm)
    · have empty := (created claims).1
      rw [accounted.unopened missing (fresh missing empty) empty] at member
      cases member
  | full accepted record keeps limited reached =>
    have unclaimed : ¬ (({ a.log.extend [] with record := some record } : TaskLog).mark "file_limit"
      io.mark).claims = true := by
      intro after
      obtain ⟨claims, ineffective⟩ := claims_mark after
      obtain ⟨claimed, _⟩ | ⟨_, empty, _⟩ := claims_keeps keeps claims
      · rw [marks claimed limited reached] at ineffective
        cases ineffective
      · rw [TaskLog.size, empty] at reached
        exact limited (Nat.le_zero.mp reached)
    refine ⟨fun claims => absurd claims unclaimed, fun claims => absurd claims unclaimed,
      fun claims => absurd claims unclaimed, fun _ _ bytes => ?_⟩
    have empty : a.log.bytes = [] := by
      dsimp only at bytes
      rw [mark_bytes] at bytes
      exact extended.symm.trans bytes
    rw [TaskLog.size, empty] at reached
    exact absurd (Nat.le_zero.mp reached) limited
  | live accepted record keeps room stopped isStopped =>
    have kept : record.claims = true → record = .health (some true) none := fun claims => by
      obtain ⟨claimed, same⟩ | ⟨_, _, whole⟩ := claims_keeps keeps claims
      · exact Option.some.inj (same.symm.trans (accounted.silent claimed))
      · exact whole
    refine ⟨fun claims => ?_, fun claims handle member => ?_, fun claims => congrArg some (kept claims),
      fun missing => nomatch missing⟩
    · obtain ⟨claimed, _⟩ | ⟨missing, empty, _⟩ := claims_keeps keeps claims
      · exact extended.trans (accounted.stored claimed)
      · exact extended.trans (empty.trans (fresh missing empty).symm)
    · obtain old | new := List.mem_append.mp member
      · obtain ⟨claimed, _⟩ | ⟨missing, empty, _⟩ := claims_keeps keeps claims
        · exact accounted.running claimed handle old
        · rw [accounted.unopened missing (fresh missing empty) empty] at old
          cases old
      -- a record without a reason stops no writer
      · cases Option.mem_toList.mp new
        rw [isStopped, kept claims]
        rfl

theorem Accounted.write (accounted : Accounted a) {n : Nat} (isHandle : a.writers[n]? = some handle)
    (effective : a.log.claims = true → ∀ reason, (io.mark reason).effective = true)
    (checked : a.log.claims = true → handle.checks data = true → handle.keepFreeBytes ≠ 0 →
      io.free.isSome) :
    Accounted ⟨(handle.write io a.log data).1, a.writers.set n (handle.write io a.log data).2⟩ := by
  have member := List.mem_of_getElem? isHandle
  have wrote := fun after : (handle.write io a.log data).1.claims = true =>
    claims_write (accounted.running (claimed_write after) handle member)
      (effective (claimed_write after))
      (checked (claimed_write after)) after
  constructor
  · intro after
    obtain ⟨bytes, _, _⟩ := wrote after
    exact bytes.trans ((congrArg (· ++ data) (accounted.stored (claimed_write after))).trans
      passed_write.symm)
  · intro after other listed
    obtain old | rfl := List.mem_or_eq_of_mem_set listed
    · exact accounted.running (claimed_write after) other old
    · exact (wrote after).2.2
  · intro after
    exact (wrote after).2.1.trans (accounted.silent (claimed_write after))
  -- a write of nothing changes nothing, and after any other something was passed
  · intro missing passed bytes
    obtain ⟨before, rfl⟩ := List.append_eq_nil_iff.mp (passed_write.symm.trans passed)
    have same : (handle.write io a.log []).1 = { a.log with passed := a.log.passed ++ [] } := rfl
    dsimp only at missing bytes
    rw [same] at missing bytes
    rw [accounted.unopened missing before bytes] at member
    cases member

theorem Accounted.step (accounted : Accounted a) (accountable : Accountable a act)
    (stepped : a.step act = some b) :
    Accounted b := by
  cases act with
  | start maxBytes keepFreeBytes io =>
    cases stepped
    exact accounted.start accountable.1 accountable.2
  | write n data io =>
    obtain ⟨handle, isHandle, rest⟩ := Option.bind_eq_some_iff.mp stepped
    split at rest
    · cases rest
    · cases rest
      exact accounted.write isHandle (fun claims => (accountable claims).1)
        (fun claims => (accountable claims).2 handle isHandle)
  | close n =>
    obtain ⟨handle, isHandle, rfl⟩ := Option.map_eq_some_iff.mp stepped
    refine ⟨accounted.stored, fun claims other listed =>
      ?_, accounted.silent, fun missing passed bytes => ?_⟩
    · obtain old | rfl := List.mem_or_eq_of_mem_set listed
      · exact accounted.running claims other old
      · exact accounted.running claims handle (List.mem_of_getElem? isHandle)
    · have member := List.mem_of_getElem? isHandle
      rw [accounted.unopened missing passed bytes] at member
      cases member

/-- After an accountable run a log reported as complete holds every byte that was passed to `write`. -/
theorem complete_stored (run : Run (Guarded ArchiveStep Accountable) .absent acts a)
    (complete : a.log.outputIntegrity.complete = some true) : a.log.bytes = a.log.passed := by
  have accounted : Accounted a := by
    refine run.invariant (fun accounted stepped => accounted.step stepped.2 stepped.1) ?_
    exact ⟨fun claims => (nomatch claims), fun claims => (nomatch claims), fun claims =>
      (nomatch claims), fun _ _ _ => rfl⟩
  exact accounted.stored (claims_of_complete complete)

/-- The disk is full when the data is written, and the record can still be overwritten. -/
def WriteIO.full : WriteIO where
  free := some 0
  accepts _ := none
  within _ _ same := nomatch same
  mark _ := .written

/-- A log whose record cannot be created at first. It is complete until the disk is full, and after
the failed write it is reported as incomplete. -/
theorem complete_stored_full : ∃ a b, Run (Guarded ArchiveStep Accountable) .absent
      [.start 0 0 ⟨.failed none, .written⟩, .start 0 0 .plain, .write 0 [1] .plain] a ∧
    a.log.outputIntegrity.complete = some true ∧ a.log.bytes = a.log.passed ∧
    Guarded ArchiveStep Accountable a (.write 0 [2] .full) b ∧
      b.log.outputIntegrity.complete = some false ∧
    b.log.bytes ≠ b.log.passed := by
  have accountable : ∀ {a : Archive} {n : Nat} {data : List UInt8} {io : WriteIO}, io.free = some 0 →
      (∀ reason, io.mark reason = .written) → Accountable a (.write n data io) := fun free written _ =>
    ⟨fun reason => by rw [written reason]; rfl, fun _ _ _ _ => by rw [free]; rfl⟩
  let archive (data passed : List UInt8) (record : IntegrityRecord) (stopped : Bool)
    (since : Nat) : Archive :=
    ⟨⟨some data, some record, passed, 0⟩, [⟨0, 0, data.length, stopped, since, false⟩]⟩
  let complete : IntegrityRecord := .health (some true) none
  have refused : Guarded ArchiveStep Accountable .absent (.start 0 0 ⟨.failed none, .written⟩)
    ⟨⟨some [], none, [], 0⟩, []⟩ :=
    ⟨rfl, fun _ _ => rfl, fun _ _ _ => rfl⟩
  have opens : Guarded ArchiveStep Accountable ⟨⟨some [], none, [], 0⟩, []⟩ (.start 0 0 .plain)
      (archive [] [] complete false 1048576) :=
    ⟨rfl, fun _ _ => rfl, fun _ _ _ => rfl⟩
  have first : Guarded ArchiveStep Accountable (archive [] [] complete false 1048576)
    (.write 0 [1] .plain)
      (archive [1] [1] complete false 0) :=
    ⟨rfl, accountable rfl (fun _ => rfl)⟩
  have fails : Guarded ArchiveStep Accountable (archive [1] [1] complete false 0) (.write 0 [2] .full)
      (archive [1] [1, 2] (.health (some false) (some "write_error")) true 1) :=
    ⟨rfl, accountable rfl (fun _ => rfl)⟩
  have run := Run.cons refused (.cons opens (.single first))
  exact ⟨_, _, run, rfl, complete_stored run rfl, fails, rfl, by decide⟩

/-- No call succeeds. -/
def WriteIO.broken : WriteIO where
  free := none
  accepts _ := none
  within _ _ same := nomatch same
  mark _ := .failed none false

/-- The data is not stored, and the record is neither overwritten nor removed. -/
theorem lost_byte_complete : ∃ a, Run ArchiveStep .absent [.start 0 0 .plain, .write 0 [1] .broken] a ∧
    a.log.outputIntegrity.complete = some true ∧ ¬ a.log.bytes = a.log.passed := by
  have run : Run ArchiveStep .absent [.start 0 0 .plain, .write 0 [1] .broken]
      ⟨⟨some [], some (.health (some true) none), [1], 0⟩, [⟨0, 0, 0, true, 0, false⟩]⟩ :=
        .cons rfl (.single rfl)
  exact ⟨_, run, rfl, by decide⟩

end Accounts
end LocalFlow
