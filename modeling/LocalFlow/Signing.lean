import LocalFlow.Models
import LocalFlow.Library.Lookup
import LocalFlow.Library.Run
import Mathlib.Algebra.Order.Ring.Abs
import Mathlib.Tactic.Linarith

/-! Signed requests: the nonces and key generations of `AuthManager`, calls of `is_signed` that wait
for the body of their request, and the rotation of the key between any two of their parts. -/
namespace LocalFlow
open Transition

/-- What a signed request shows before its body has been read. -/
structure SignedRequest where
  method : String
  path : String
  query : String
  nonce : String
  created : String
  generation : String
  signature : String

/-- `int`, which is none where it raises, SHA-256 and HMAC over a type of keys. -/
structure Crypto (κ : Type) where
  int : String → Option Int
  sha256 : List UInt8 → String
  hmac : κ → String → String

structure AuthManager (κ : Type) where
  nonces : List (String × (Seconds × Nat)) := []
  generation : Nat := 1
  apiKey : κ
  previousKeys : List (Nat × (κ × Seconds)) := []

section Manager
variable {κ : Type} (crypto : Crypto κ) (auth : AuthManager κ)

/-- The text that is signed. -/
def SignedRequest.canonical (request : SignedRequest) (body : List UInt8) : String :=
  "\n".intercalate [request.method, request.path ++
    (if request.query ≠ "" then "?" ++ request.query else ""),
    crypto.sha256 body, request.generation, request.created, request.nonce]

namespace AuthManager

/-- `issue_nonce`, with the token it has drawn. -/
def issueNonce (nonce : String) (now : Seconds) : AuthManager κ :=
  { auth with nonces := (nonce, (now + 30, auth.generation)) ::
    auth.nonces.filter (fun entry => entry.1 ≠ nonce) }

/-- The challenge of a nonce, `(0, 0)` where there is none. -/
def challenge (nonce : String) : Seconds × Nat := (auth.nonces.lookup nonce).getD (0, 0)

/-- `nonces.pop`. -/
def consume (nonce : String) : AuthManager κ :=
  { auth with nonces := auth.nonces.filter (fun entry => entry.1 ≠ nonce) }

/-- The checks of `is_signed` before the body is read, with the two readings of the clock. -/
def admits (request : SignedRequest) (first second : Seconds) : Bool :=
  match crypto.int request.created with
  | none => false
  | some created => !((auth.challenge request.nonce).1 < first || 30 < |second - created| ||
      request.generation ≠ toString (auth.challenge request.nonce).2)

/-- The key of a challenge's generation. -/
def keyOf (generation : Nat) (now : Seconds) : Option κ :=
  if generation = auth.generation then some auth.apiKey
  else
    match auth.previousKeys.lookup generation with
    | some (key, expires) => if now < expires then some key else none
    | none => none

/-- `is_signed` once the body has been read. -/
def verifies (request : SignedRequest) (generation : Nat) (body : List UInt8) (now : Seconds) : Bool :=
  match auth.keyOf generation now with
  | some key => request.signature = crypto.hmac key (request.canonical crypto body)
  | none => false

/-- `rotate_api_key`. Where the new key cannot be written the generation has moved on all the same. -/
def rotate (now : Seconds) (written : Option κ) : AuthManager κ :=
  { auth with
    previousKeys := (auth.generation, (auth.apiKey, now + 30)) ::
      (auth.previousKeys.filter (fun entry => now < entry.2.2)).filter
        (fun entry => entry.1 ≠ auth.generation)
    generation := auth.generation + 1
    apiKey := written.getD auth.apiKey }

end AuthManager
end Manager

/-! ## Interleavings -/

structure NonceIssue where
  nonce : String
  time : Seconds
  generation : Nat

/-- A call of `is_signed` that waits for the body. -/
structure SignedCall where
  request : SignedRequest
  generation : Nat
  presented : Seconds

/-- A request that is authenticated, with the generation of that moment. -/
structure Authentication where
  request : SignedRequest
  body : List UInt8
  presented : Seconds
  finished : Seconds
  current : Nat

/-- The manager with the suspended calls, and the record of a run: the nonces that were issued, the
nonces that have been presented since, the key of each generation and the time at which it was
rotated away, and the requests that were authenticated. -/
structure Signing (κ : Type) where
  auth : AuthManager κ
  clock : Seconds
  calls : List (Nat × SignedCall) := []
  next : Nat := 0
  issues : List NonceIssue := []
  presented : List String := []
  keys : List κ
  rotations : List Seconds := []
  accepted : List Authentication := []

inductive SigningAct (κ : Type) where
  | issue (nonce : String) (now : Seconds)
  | present (request : SignedRequest) (first second : Seconds)
  | finish (call : Nat) (body : List UInt8) (now : Seconds)
  | abandon (call : Nat)
  | rotate (now : Seconds) (written : Option κ)

namespace Signing
variable {κ : Type} (crypto : Crypto κ)

def start (key : κ) (clock : Seconds) : Signing κ := { auth := { apiKey := key }, clock, keys := [key] }

/-- One step. The clock never goes back, and no token is drawn twice. -/
def step (s : Signing κ) : SigningAct κ → Option (Signing κ)
  | .issue nonce now =>
    if s.clock ≤ now ∧ nonce ∉ s.issues.map NonceIssue.nonce then
      some { s with
        auth := s.auth.issueNonce nonce now
        clock := now
        issues := s.issues ++ [⟨nonce, now, s.auth.generation⟩]
        presented := s.presented.filter (· ≠ nonce) }
    else none
  | .present request first second =>
    if s.clock ≤ first ∧ first ≤ second then
      some { s with
        auth := s.auth.consume request.nonce
        clock := second
        calls := if s.auth.admits crypto request first second then
          s.calls ++ [(s.next, ⟨request, (s.auth.challenge request.nonce).2, first⟩)] else s.calls
        next := s.next + 1
        presented := s.presented ++ [request.nonce] }
    else none
  | .finish call body now =>
    if s.clock ≤ now then
      (s.calls.lookup call).map (fun waiting => { s with
        clock := now
        calls := s.calls.filter (fun entry => entry.1 ≠ call)
        accepted := if s.auth.verifies crypto waiting.request waiting.generation body now then
          s.accepted ++ [⟨waiting.request, body, waiting.presented, now, s.auth.generation⟩]
            else s.accepted })
    else none
  | .abandon call => some { s with calls := s.calls.filter (fun entry => entry.1 ≠ call) }
  | .rotate now written =>
    if s.clock ≤ now then
      some { s with
        auth := s.auth.rotate now written
        clock := now
        keys := s.keys ++ [(s.auth.rotate now written).apiKey]
        rotations := s.rotations ++ [now] }
    else none

/-! ## What a run keeps -/

/-- The generations: the key of each, and when each but the last was rotated away. -/
structure Generations (s : Signing κ) : Prop where
  count : s.auth.generation = s.rotations.length + 1
  keys : s.keys.length = s.rotations.length + 1
  current : s.keys[s.rotations.length]? = some s.auth.apiKey
  past : ∀ time ∈ s.rotations, time ≤ s.clock
  previous : ∀ entry ∈ s.auth.previousKeys, 0 < entry.1 ∧ s.keys[entry.1 - 1]? = some entry.2.1 ∧
    s.rotations[entry.1 - 1]? = some (entry.2.2 - 30)
  kept : ∀ generation time, 0 < generation → s.rotations[generation - 1]? = some time →
    s.clock < time + 30 →
    generation ∈ s.auth.previousKeys.map Prod.fst

/-- The nonces that were issued, and those among them that nobody has presented. -/
structure Issues (s : Signing κ) : Prop where
  unique : (s.issues.map NonceIssue.nonce).Nodup
  dated : ∀ issue ∈ s.issues, 0 < issue.generation ∧ issue.generation ≤ s.auth.generation ∧
    issue.time ≤ s.clock ∧
    ∀ time, s.rotations[issue.generation - 1]? = some time → issue.time ≤ time
  outstanding : ∀ entry ∈ s.auth.nonces, entry.1 ∉ s.presented ∧
    ∃ issue ∈ s.issues, issue.nonce = entry.1 ∧ entry.2 = (issue.time + 30, issue.generation)
  kept : ∀ issue ∈ s.issues, issue.nonce ∉ s.presented → issue.nonce ∈ s.auth.nonces.map Prod.fst

/-- A call that has been admitted with a nonce of its own. -/
structure Admitted (issues : List NonceIssue) (call : SignedCall) : Prop where
  intro ::
  issued : ∃ issue ∈ issues, issue.nonce = call.request.nonce ∧ issue.generation = call.generation ∧
    call.presented ≤ issue.time + 30
  bound : call.request.generation = toString call.generation

/-- A request that was authenticated as it has to be. -/
def Authentic (s : Signing κ) (a : Authentication) : Prop :=
  ∃ issue ∈ s.issues, issue.nonce = a.request.nonce ∧ a.presented ≤ issue.time + 30 ∧
    a.request.generation = toString issue.generation ∧
    (∃ key, s.keys[issue.generation - 1]? = some key ∧
      a.request.signature = crypto.hmac key (a.request.canonical crypto a.body)) ∧
    (a.current = issue.generation ∨ ∃ time, s.rotations[issue.generation - 1]? = some time ∧
      a.finished < time + 30)

/-- The nonces of the calls that can still be authenticated, and of the requests that were. -/
def spent (s : Signing κ) : List String :=
  (s.calls.filter (fun entry => entry.2.generation ≠ 0)).map (fun entry => entry.2.request.nonce) ++
    s.accepted.map (fun a => a.request.nonce)

structure Tracked (s : Signing κ) : Prop where
  generations : Generations s
  issues : Issues s
  calls : ∀ entry ∈ s.calls, entry.1 < s.next ∧ (entry.2.generation = 0 ∨ Admitted s.issues entry.2)
  once : s.spent.Nodup
  consumed : ∀ nonce ∈ s.spent, nonce ∈ s.presented
  authentic : ∀ a ∈ s.accepted, Authentic crypto s a

variable {crypto} {s t : Signing κ}

theorem entry_kept {β : Type} {front whole : List β} (extends' : front <+: whole) {n : Nat} {entry : β}
    (found : front[n]? = some entry) : whole[n]? = some entry := by
  obtain ⟨more, rfl⟩ := extends'
  rw [List.getElem?_append_left (List.getElem?_eq_some_iff.mp found).1]
  exact found

theorem Admitted.mono {issues issues' : List NonceIssue} {waiting : SignedCall}
    (admitted : Admitted issues waiting)
    (grows : ∀ issue ∈ issues, issue ∈ issues') : Admitted issues' waiting := by
  obtain ⟨⟨issue, issued, rest⟩, bound⟩ := admitted
  exact ⟨⟨issue, grows issue issued, rest⟩, bound⟩

theorem Authentic.mono {a : Authentication} (authentic : Authentic crypto s a)
    (issues : ∀ issue ∈ s.issues, issue ∈ t.issues)
    (keys : s.keys <+: t.keys) (rotations : s.rotations <+: t.rotations) : Authentic crypto t a := by
  obtain ⟨issue, issued, nonce, timely, generation, ⟨key, isKey, signed⟩, window⟩ := authentic
  refine ⟨issue, issues issue issued, nonce, timely, generation, ⟨key, ?_, signed⟩, ?_⟩
  · exact entry_kept keys isKey
  · obtain current | ⟨time, rotated, recent⟩ := window
    · exact .inl current
    · exact .inr ⟨time, entry_kept rotations rotated, recent⟩

theorem start_tracked (key : κ) (clock : Seconds) : Tracked crypto (start key clock) where
  generations := ⟨rfl, rfl, rfl, nofun, nofun, nofun⟩
  issues := ⟨List.nodup_nil, nofun, nofun, nofun⟩
  calls := nofun
  once := List.nodup_nil
  consumed := nofun
  authentic := nofun

theorem Generations.later (generations : Generations s) (later : s.clock ≤ t.clock)
    (generation : t.auth.generation = s.auth.generation)
    (apiKey : t.auth.apiKey = s.auth.apiKey) (previous : t.auth.previousKeys = s.auth.previousKeys)
    (keys : t.keys = s.keys)
    (rotations : t.rotations = s.rotations) : Generations t := by
  refine ⟨?_, ?_, ?_, ?_, ?_, ?_⟩
  · rw [generation, rotations]
    exact generations.count
  · rw [keys, rotations]
    exact generations.keys
  · rw [keys, rotations, apiKey]
    exact generations.current
  · rw [rotations]
    exact fun time member => (generations.past time member).trans later
  · rw [previous, keys, rotations]
    exact generations.previous
  · rw [previous, rotations]
    exact fun number time positive rotated recent =>
      generations.kept number time positive rotated (lt_of_le_of_lt (by linarith) recent)

/-- A step that leaves the manager and the record of the nonces and generations. -/
theorem Issues.later (issues : Issues s) (later : s.clock ≤ t.clock) (auth : t.auth = s.auth)
    (same : t.issues = s.issues)
    (presented : t.presented = s.presented) (rotations : t.rotations = s.rotations) : Issues t := by
  refine ⟨?_, ?_, ?_, ?_⟩
  · rw [same]
    exact issues.unique
  · rw [same, auth, rotations]
    intro issue issued
    obtain ⟨positive, known, past, rotated⟩ := issues.dated issue issued
    exact ⟨positive, known, past.trans later, rotated⟩
  · rw [same, auth, presented]
    exact issues.outstanding
  · rw [same, auth, presented]
    exact issues.kept

/-! ### The steps -/

variable {nonce : String} {now first second : Seconds} {request : SignedRequest} {call : Nat}
  {body : List UInt8} {written : Option κ}

theorem spent_issued (tracked : Tracked crypto s) (used : nonce ∈ s.spent) :
    nonce ∈ s.issues.map NonceIssue.nonce := by
  obtain called | answered := List.mem_append.mp used
  · obtain ⟨entry, live, rfl⟩ := List.mem_map.mp called
    obtain ⟨waiting, lives⟩ := List.mem_filter.mp live
    obtain ⟨_, dead | ⟨⟨issue, issued, same, _⟩, _⟩⟩ := tracked.calls entry waiting
    · exact absurd dead (of_decide_eq_true lives)
    · exact List.mem_map.mpr ⟨issue, issued, same⟩
  · obtain ⟨a, accepted, rfl⟩ := List.mem_map.mp answered
    obtain ⟨issue, issued, same, _⟩ := tracked.authentic a accepted
    exact List.mem_map.mpr ⟨issue, issued, same⟩

theorem issue_tracked (tracked : Tracked crypto s)
    (stepped : s.step crypto (.issue nonce now) = some t) : Tracked crypto t := by
  unfold step at stepped
  dsimp only at stepped
  split at stepped
  · rename_i allowed
    obtain ⟨later, fresh⟩ := allowed
    cases stepped
    have grows : ∀ issue ∈ s.issues, issue ∈ s.issues ++ [⟨nonce, now, s.auth.generation⟩] :=
      fun issue issued => List.mem_append_left _ issued
    constructor
    · exact tracked.generations.later later rfl rfl rfl rfl rfl
    · have issues := tracked.issues
      constructor
      · dsimp only
        rw [List.map_append, List.nodup_append]
        refine ⟨issues.unique, List.nodup_singleton _, ?_⟩
        rintro old isOld _ isNew rfl
        cases List.mem_singleton.mp isNew
        exact fresh isOld
      · intro issue issued
        obtain old | new := List.mem_append.mp issued
        · obtain ⟨positive, known, past, rotated⟩ := issues.dated issue old
          exact ⟨positive, known, past.trans later, rotated⟩
        · cases List.mem_singleton.mp new
          have count := tracked.generations.count
          refine ⟨by dsimp only; omega, le_rfl, le_rfl, fun time rotated => ?_⟩
          have within := (List.getElem?_eq_some_iff.mp rotated).1
          dsimp only at within
          omega
      · intro entry outstanding
        obtain rfl | old := List.mem_cons.mp outstanding
        · refine ⟨fun presented => ?_, ⟨nonce, now, s.auth.generation⟩, ?_, rfl, rfl⟩
          · exact of_decide_eq_true (List.mem_filter.mp presented).2 rfl
          · exact List.mem_append_right _ (List.mem_singleton_self _)
        · obtain ⟨unpresented, issue, issued, same⟩ :=
            issues.outstanding entry (List.mem_filter.mp old).1
          exact ⟨fun presented => unpresented (List.mem_filter.mp presented).1, issue,
            grows issue issued, same⟩
      · intro issue issued unpresented
        dsimp only [AuthManager.issueNonce]
        rw [List.map_cons, List.mem_cons]
        obtain old | new := List.mem_append.mp issued
        · have other : issue.nonce ≠ nonce := fun same => fresh (List.mem_map.mpr ⟨issue, old, same⟩)
          have outstanding := issues.kept issue old (fun presented =>
            unpresented (List.mem_filter.mpr ⟨presented, decide_eq_true other⟩))
          obtain ⟨entry, isEntry, same⟩ := List.mem_map.mp outstanding
          refine .inr (List.mem_map.mpr ⟨entry, List.mem_filter.mpr ⟨isEntry, decide_eq_true ?_⟩, same⟩)
          rw [same]
          exact other
        · cases List.mem_singleton.mp new
          exact .inl rfl
    · intro entry waiting
      obtain ⟨below, dead | admitted⟩ := tracked.calls entry waiting
      · exact ⟨below, .inl dead⟩
      · exact ⟨below, .inr (admitted.mono grows)⟩
    · exact tracked.once
    · intro used isUsed
      refine List.mem_filter.mpr ⟨tracked.consumed used isUsed, decide_eq_true ?_⟩
      rintro rfl
      exact fresh (spent_issued tracked isUsed)
    · exact fun a accepted =>
        (tracked.authentic a accepted).mono grows (List.prefix_refl _) (List.prefix_refl _)
  · cases stepped

/-- What the checks before the body say of a request that passes. -/
theorem admits_checks (admitted : s.auth.admits crypto request first second = true) :
    first ≤ (s.auth.challenge request.nonce).1 ∧
      request.generation = toString (s.auth.challenge request.nonce).2 := by
  unfold AuthManager.admits at admitted
  split at admitted
  · cases admitted
  · rw [Bool.not_eq_true', Bool.or_eq_false_iff, Bool.or_eq_false_iff] at admitted
    obtain ⟨⟨timely, _⟩, bound⟩ := admitted
    exact ⟨not_lt.mp (of_decide_eq_false timely), not_not.mp (of_decide_eq_false bound)⟩

/-- A challenge is that of an issued nonce, or of none. -/
theorem challenge_cases (tracked : Tracked crypto s) :
    s.auth.challenge nonce = (0, 0) ∨ nonce ∉ s.presented ∧
      ∃ issue ∈ s.issues, issue.nonce = nonce ∧
        s.auth.challenge nonce = (issue.time + 30, issue.generation) := by
  unfold AuthManager.challenge
  cases found : s.auth.nonces.lookup nonce with
  | none => exact .inl rfl
  | some challenge =>
    obtain ⟨unpresented, issue, issued, same, isChallenge⟩ :=
      tracked.issues.outstanding _ (Lookup.mem found)
    exact .inr ⟨unpresented, issue, issued, same, isChallenge⟩

/-- A nonce is spent where it was outstanding. -/
theorem present_spends (tracked : Tracked crypto s)
    (stepped : s.step crypto (.present request first second) = some t) :
    t.spent = s.spent ∨ request.nonce ∉ s.presented ∧ t.spent =
      (s.calls.filter (fun entry => entry.2.generation ≠ 0)).map (fun entry => entry.2.request.nonce) ++
        request.nonce :: s.accepted.map (fun a => a.request.nonce) := by
  unfold step at stepped
  dsimp only at stepped
  split at stepped
  · cases stepped
    unfold spent
    dsimp only
    split
    · rw [List.filter_append, List.filter_singleton]
      obtain none | ⟨unpresented, issue, issued, _, isChallenge⟩ :=
        @challenge_cases κ crypto s request.nonce tracked
      · have dead : decide ((s.auth.challenge request.nonce).2 ≠ 0) = false := by rw [none]; rfl
        left
        rw [dead, cond_false, List.append_nil]
      · have live := (tracked.issues.dated issue issued).1
        have alive : decide ((s.auth.challenge request.nonce).2 ≠ 0) = true := by
          rw [isChallenge]
          exact decide_eq_true (by dsimp only; omega)
        refine .inr ⟨unpresented, ?_⟩
        rw [alive, cond_true, List.map_append, List.append_assoc]
        rfl
    · exact .inl rfl
  · cases stepped

theorem present_tracked (tracked : Tracked crypto s)
    (stepped : s.step crypto (.present request first second) = some t) :
    Tracked crypto t := by
  have spends := present_spends tracked stepped
  unfold step at stepped
  dsimp only at stepped
  split at stepped
  · rename_i allowed
    obtain ⟨since, later⟩ := allowed
    cases stepped
    constructor
    · exact tracked.generations.later (since.trans later) rfl rfl rfl rfl rfl
    · have issues := tracked.issues
      refine ⟨issues.unique, ?_, ?_, ?_⟩
      · intro issue issued
        obtain ⟨positive, known, past, rotated⟩ := issues.dated issue issued
        exact ⟨positive, known, past.trans (since.trans later), rotated⟩
      · intro entry outstanding
        obtain ⟨old, other⟩ := List.mem_filter.mp outstanding
        obtain ⟨unpresented, issued⟩ := issues.outstanding entry old
        refine ⟨fun presented => ?_, issued⟩
        obtain was | new := List.mem_append.mp presented
        · exact unpresented was
        · exact of_decide_eq_true other (List.mem_singleton.mp new)
      · intro issue issued unpresented
        obtain ⟨entry, isEntry, same⟩ := List.mem_map.mp (issues.kept issue issued (fun presented =>
          unpresented (List.mem_append_left _ presented)))
        refine List.mem_map.mpr
          ⟨entry, List.mem_filter.mpr ⟨isEntry, decide_eq_true (fun is => ?_)⟩, same⟩
        exact unpresented (List.mem_append_right _ (List.mem_singleton.mpr (same.symm.trans is)))
    · intro entry waiting
      dsimp only at waiting
      split at waiting
      · rename_i admitted
        obtain was | new := List.mem_append.mp waiting
        · obtain ⟨below, known⟩ := tracked.calls entry was
          exact ⟨below.trans (Nat.lt_succ_self _), known⟩
        · cases List.mem_singleton.mp new
          refine ⟨Nat.lt_succ_self _, ?_⟩
          obtain ⟨timely, bound⟩ := admits_checks admitted
          obtain none | ⟨_, issue, issued, same, isChallenge⟩ :=
            @challenge_cases κ crypto s request.nonce tracked
          · exact .inl (congrArg Prod.snd none)
          · rw [isChallenge] at timely
            exact .inr ⟨⟨issue, issued, same, (congrArg Prod.snd isChallenge).symm, timely⟩, bound⟩
      · obtain ⟨below, known⟩ := tracked.calls entry waiting
        exact ⟨below.trans (Nat.lt_succ_self _), known⟩
    · obtain same | ⟨fresh, same⟩ := spends
      · rw [same]
        exact tracked.once
      · rw [same, List.nodup_middle]
        refine List.nodup_cons.mpr ⟨fun used => fresh (tracked.consumed _ used), tracked.once⟩
    · intro used isUsed
      obtain same | ⟨_, same⟩ := spends
      · rw [same] at isUsed
        exact List.mem_append_left _ (tracked.consumed used isUsed)
      · rw [same] at isUsed
        obtain called | rest := List.mem_append.mp isUsed
        · exact List.mem_append_left _ (tracked.consumed used (List.mem_append_left _ called))
        · obtain rfl | answered := List.mem_cons.mp rest
          · exact List.mem_append_right _ (List.mem_singleton_self _)
          · exact List.mem_append_left _ (tracked.consumed used (List.mem_append_right _ answered))
    · exact fun a accepted =>
        (tracked.authentic a accepted).mono (fun _ issued => issued) (List.prefix_refl _)
        (List.prefix_refl _)
  · cases stepped

theorem verifies_key {number : Nat} (verified : s.auth.verifies crypto request number body now = true) :
    ∃ key, s.auth.keyOf number now = some key ∧
      request.signature = crypto.hmac key (request.canonical crypto body) := by
  unfold AuthManager.verifies at verified
  split at verified
  · rename_i key isKey
    exact ⟨key, isKey, of_decide_eq_true verified⟩
  · cases verified

/-- A key is given for the current generation, and for a rotated one within its window. -/
theorem keyOf_some (generations : Generations s) {number : Nat} {key : κ}
    (isKey : s.auth.keyOf number now = some key) :
    0 < number ∧ s.keys[number - 1]? = some key ∧
      (s.auth.generation = number ∨ ∃ time, s.rotations[number - 1]? = some time ∧
        now < time + 30) := by
  unfold AuthManager.keyOf at isKey
  split at isKey
  · rename_i current
    cases isKey
    have count := generations.count
    have last : number - 1 = s.rotations.length := by omega
    refine ⟨by omega, ?_, .inl current.symm⟩
    rw [last]
    exact generations.current
  · split at isKey
    · rename_i stored expires found
      split at isKey
      · rename_i recent
        cases isKey
        obtain ⟨positive, same, rotated⟩ := generations.previous _ (Lookup.mem found)
        refine ⟨positive, same, .inr ⟨expires - 30, rotated, ?_⟩⟩
        linarith
      · cases isKey
    · cases isKey

/-- The nonce of an authenticated call leaves the calls. -/
theorem finish_spends (tracked : Tracked crypto s)
    (stepped : s.step crypto (.finish call body now) = some t) :
    t.spent.Nodup ∧ ∀ nonce ∈ t.spent, nonce ∈ s.spent := by
  unfold step at stepped
  dsimp only at stepped
  split at stepped
  · obtain ⟨waiting, found, rfl⟩ := Option.map_eq_some_iff.mp stepped
    obtain ⟨unique, apartFrom, disjoint⟩ := List.nodup_append.mp tracked.once
    have drops : ((s.calls.filter (fun entry => entry.1 ≠ call)).filter
      (fun entry => entry.2.generation ≠ 0)).Sublist
        (s.calls.filter (fun entry => entry.2.generation ≠ 0)) := List.filter_sublist.filter _
    have remaining := drops.map (fun entry => entry.2.request.nonce)
    unfold spent
    dsimp only
    split
    · rename_i verified
      obtain ⟨key, isKey, _⟩ := verifies_key verified
      have positive := (keyOf_some tracked.generations isKey).1
      have live : (call, waiting) ∈ s.calls.filter (fun entry => entry.2.generation ≠ 0) :=
        List.mem_filter.mpr ⟨Lookup.mem found, decide_eq_true (by dsimp only; omega)⟩
      have was : waiting.request.nonce ∈ (s.calls.filter (fun entry => entry.2.generation ≠ 0)).map
        (fun entry => entry.2.request.nonce) :=
        List.mem_map.mpr ⟨_, live, rfl⟩
      have gone : waiting.request.nonce ∉
          ((s.calls.filter (fun entry => entry.1 ≠ call)).filter
            (fun entry => entry.2.generation ≠ 0)).map
            (fun entry => entry.2.request.nonce) := by
        intro again
        obtain ⟨other, isOther, same⟩ := List.mem_map.mp again
        have isCall := List.inj_on_of_nodup_map unique (drops.subset isOther) live same
        have apart := of_decide_eq_true (List.mem_filter.mp (List.mem_filter.mp isOther).1).2
        exact apart (congrArg Prod.fst isCall)
      rw [List.map_append, ← List.append_assoc]
      constructor
      · refine List.nodup_append.mpr
          ⟨tracked.once.sublist (remaining.append_right _), List.nodup_singleton _, ?_⟩
        rintro nonce used _ isLast rfl
        cases List.mem_singleton.mp isLast
        obtain called | answered := List.mem_append.mp used
        · exact gone called
        · exact disjoint _ was _ answered rfl
      · intro nonce used
        obtain old | new := List.mem_append.mp used
        · exact (remaining.append_right _).subset old
        · cases List.mem_singleton.mp new
          exact List.mem_append_left _ was
    · exact ⟨tracked.once.sublist (remaining.append_right _), fun nonce used =>
        (remaining.append_right _).subset used⟩
  · cases stepped

theorem finish_tracked (tracked : Tracked crypto s)
    (stepped : s.step crypto (.finish call body now) = some t) :
    Tracked crypto t := by
  obtain ⟨once, spends⟩ := finish_spends tracked stepped
  unfold step at stepped
  dsimp only at stepped
  split at stepped
  · rename_i later
    obtain ⟨waiting, found, rfl⟩ := Option.map_eq_some_iff.mp stepped
    refine ⟨tracked.generations.later later rfl rfl rfl rfl rfl,
      tracked.issues.later later rfl rfl rfl rfl, ?_, once, ?_, ?_⟩
    · exact fun entry waiting => tracked.calls entry (List.mem_filter.mp waiting).1
    · exact fun nonce used => tracked.consumed nonce (spends nonce used)
    · intro a accepted
      dsimp only at accepted
      split at accepted
      · rename_i verified
        obtain old | new := List.mem_append.mp accepted
        · exact tracked.authentic a old
        · cases List.mem_singleton.mp new
          obtain ⟨key, isKey, signed⟩ := verifies_key verified
          obtain ⟨positive, stored, window⟩ := keyOf_some tracked.generations isKey
          obtain ⟨_, dead | ⟨⟨issue, issued, nonce, generation, timely⟩, bound⟩⟩ :=
            tracked.calls _ (Lookup.mem found)
          · dsimp only at dead
            omega
          · dsimp only at nonce generation timely bound
            refine ⟨issue, issued, nonce, timely, ?_, ⟨key, ?_, signed⟩, ?_⟩
            · rw [generation]
              exact bound
            · rw [generation]
              exact stored
            · rw [generation]
              exact window
      · exact tracked.authentic a accepted
  · cases stepped

theorem abandon_tracked (tracked : Tracked crypto s)
    (stepped : s.step crypto (.abandon call) = some t) : Tracked crypto t := by
  cases stepped
  have drops : ((s.calls.filter (fun entry => entry.1 ≠ call)).filter
    (fun entry => entry.2.generation ≠ 0)).Sublist
      (s.calls.filter (fun entry => entry.2.generation ≠ 0)) := List.filter_sublist.filter _
  have remaining := (drops.map (fun entry => entry.2.request.nonce)).append_right
    (s.accepted.map (fun a => a.request.nonce))
  refine ⟨tracked.generations.later le_rfl rfl rfl rfl rfl rfl,
    tracked.issues.later le_rfl rfl rfl rfl rfl, ?_, ?_, ?_, tracked.authentic⟩
  · exact fun entry waiting => tracked.calls entry (List.mem_filter.mp waiting).1
  · exact tracked.once.sublist remaining
  · exact fun nonce used => tracked.consumed nonce (remaining.subset used)

theorem rotate_tracked (tracked : Tracked crypto s)
    (stepped : s.step crypto (.rotate now written) = some t) : Tracked crypto t := by
  unfold step at stepped
  dsimp only at stepped
  split at stepped
  · rename_i later
    cases stepped
    have generations := tracked.generations
    have count := generations.count
    have keys := generations.keys
    constructor
    · constructor
      · rw [List.length_append]
        exact congrArg (· + 1) count
      · rw [List.length_append, List.length_append, keys]
        rfl
      · have last : (s.rotations ++ [now]).length = s.keys.length := by
          rw [List.length_append, keys]
          rfl
        dsimp only
        rw [last]
        exact List.getElem?_concat_length
      · intro time member
        obtain old | new := List.mem_append.mp member
        · exact (generations.past time old).trans later
        · exact (List.mem_singleton.mp new).le
      · intro entry stored
        obtain rfl | old := List.mem_cons.mp stored
        · have last : s.auth.generation - 1 = s.rotations.length := by omega
          dsimp only
          rw [last, add_sub_cancel_right]
          exact ⟨by omega, entry_kept (List.prefix_append _ _) generations.current,
            List.getElem?_concat_length⟩
        · obtain ⟨positive, isKey, rotated⟩ :=
            generations.previous entry (List.mem_filter.mp (List.mem_filter.mp old).1).1
          exact ⟨positive, entry_kept (List.prefix_append _ _) isKey,
            entry_kept (List.prefix_append _ _) rotated⟩
      · intro number time positive rotated recent
        dsimp only [AuthManager.rotate]
        rw [List.map_cons, List.mem_cons]
        by_cases last : number = s.auth.generation
        · exact .inl last
        · have within := (List.getElem?_eq_some_iff.mp rotated).1
          dsimp only at within
          rw [List.length_append, List.length_singleton] at within
          have old : s.rotations[number - 1]? = some time := by
            rw [← rotated]
            exact (List.getElem?_append_left (by omega)).symm
          have lasts : s.clock < time + 30 := lt_of_le_of_lt later recent
          obtain ⟨entry, stored, same⟩ :=
            List.mem_map.mp (generations.kept number time positive old lasts)
          obtain ⟨_, _, expires⟩ := generations.previous entry stored
          rw [same, old] at expires
          have expires : time = entry.2.2 - 30 := Option.some.inj expires
          have recent : now < time + 30 := recent
          refine .inr (List.mem_map.mpr
            ⟨entry, List.mem_filter.mpr ⟨List.mem_filter.mpr ⟨stored, decide_eq_true ?_⟩,
            decide_eq_true ?_⟩, same⟩)
          · linarith
          · rw [same]
            exact last
    · have issues := tracked.issues
      refine ⟨issues.unique, ?_, issues.outstanding, issues.kept⟩
      intro issue issued
      obtain ⟨positive, known, past, rotated⟩ := issues.dated issue issued
      refine ⟨positive, known.trans (Nat.le_succ _), past.trans later, fun time found => ?_⟩
      by_cases old : issue.generation - 1 < s.rotations.length
      · exact rotated time ((List.getElem?_append_left old).symm.trans found)
      · have last : issue.generation - 1 = s.rotations.length := by omega
        dsimp only at found
        rw [last, List.getElem?_concat_length] at found
        cases found
        exact past.trans later
    · exact tracked.calls
    · exact tracked.once
    · exact tracked.consumed
    · exact fun a accepted =>
        (tracked.authentic a accepted).mono (fun _ issued => issued) (List.prefix_append _ _)
        (List.prefix_append _ _)
  · cases stepped

theorem tracked_step {act : SigningAct κ} (tracked : Tracked crypto s)
    (stepped : s.step crypto act = some t) : Tracked crypto t := by
  cases act with
  | issue => exact issue_tracked tracked stepped
  | present => exact present_tracked tracked stepped
  | finish => exact finish_tracked tracked stepped
  | abandon => exact abandon_tracked tracked stepped
  | rotate => exact rotate_tracked tracked stepped

/-- What a run only adds to. -/
structure Extends (s t : Signing κ) : Prop where
  issues : ∀ issue ∈ s.issues, issue ∈ t.issues
  keys : s.keys <+: t.keys

theorem extends_step {act : SigningAct κ} (stepped : s.step crypto act = some t) : Extends s t := by
  unfold step at stepped
  cases act with
  | issue =>
    dsimp only at stepped
    split at stepped
    · cases stepped
      exact ⟨fun _ issued => List.mem_append_left _ issued, List.prefix_refl _⟩
    · cases stepped
  | present =>
    dsimp only at stepped
    split at stepped
    · cases stepped
      exact ⟨fun _ issued => issued, List.prefix_refl _⟩
    · cases stepped
  | finish =>
    dsimp only at stepped
    split at stepped
    · obtain ⟨_, _, rfl⟩ := Option.map_eq_some_iff.mp stepped
      exact ⟨fun _ issued => issued, List.prefix_refl _⟩
    · cases stepped
  | abandon =>
    cases stepped
    exact ⟨fun _ issued => issued, List.prefix_refl _⟩
  | rotate =>
    dsimp only at stepped
    split at stepped
    · cases stepped
      exact ⟨fun _ issued => issued, List.prefix_append _ _⟩
    · cases stepped

/-- A number that has been given out is only that of its call. -/
def Holds (number : Nat) (waiting : SignedCall) (s : Signing κ) : Prop :=
  number < s.next ∧ ∀ entry ∈ s.calls, entry.1 = number → entry.2 = waiting

theorem holds_step {number : Nat} {waiting : SignedCall} {act : SigningAct κ}
    (holds : Holds number waiting s)
    (stepped : s.step crypto act = some t) : Holds number waiting t := by
  obtain ⟨given, only⟩ := holds
  unfold step at stepped
  cases act with
  | issue =>
    dsimp only at stepped
    split at stepped
    · cases stepped
      exact ⟨given, only⟩
    · cases stepped
  | present =>
    dsimp only at stepped
    split at stepped
    · cases stepped
      refine ⟨given.trans (Nat.lt_succ_self _), fun entry member same => ?_⟩
      dsimp only at member
      split at member
      · obtain old | new := List.mem_append.mp member
        · exact only entry old same
        · cases List.mem_singleton.mp new
          dsimp only at same
          omega
      · exact only entry member same
    · cases stepped
  | finish =>
    dsimp only at stepped
    split at stepped
    · obtain ⟨_, _, rfl⟩ := Option.map_eq_some_iff.mp stepped
      exact ⟨given, fun entry member same => only entry (List.mem_filter.mp member).1 same⟩
    · cases stepped
  | abandon =>
    cases stepped
    exact ⟨given, fun entry member same => only entry (List.mem_filter.mp member).1 same⟩
  | rotate =>
    dsimp only at stepped
    split at stepped
    · cases stepped
      exact ⟨given, only⟩
    · cases stepped

theorem challenge_issue (tracked : Tracked crypto s) {issue : NonceIssue} (issued : issue ∈ s.issues)
    (unpresented : issue.nonce ∉ s.presented) :
    s.auth.challenge issue.nonce = (issue.time + 30, issue.generation) := by
  obtain ⟨challenge, found⟩ := Lookup.of_key (tracked.issues.kept issue issued unpresented)
  obtain ⟨_, other, isOther, same, isChallenge⟩ := tracked.issues.outstanding _ (Lookup.mem found)
  cases List.inj_on_of_nodup_map tracked.issues.unique isOther issued same
  unfold AuthManager.challenge
  rw [found]
  exact isChallenge

/-- Less than thirty seconds after the issue of a nonce the key of its generation is still known. -/
theorem keyOf_issue (tracked : Tracked crypto s) {issue : NonceIssue} {key : κ}
    (issued : issue ∈ s.issues)
    (isKey : s.keys[issue.generation - 1]? = some key) (later : s.clock ≤ now)
    (soon : now < issue.time + 30) :
    s.auth.keyOf issue.generation now = some key := by
  have generations := tracked.generations
  have count := generations.count
  obtain ⟨positive, known, _, rotated⟩ := tracked.issues.dated issue issued
  unfold AuthManager.keyOf
  by_cases current : issue.generation = s.auth.generation
  · have last : issue.generation - 1 = s.rotations.length := by omega
    rw [last, generations.current] at isKey
    rw [if_pos current]
    exact isKey
  · have within : issue.generation - 1 < s.rotations.length := by omega
    have isTime : s.rotations[issue.generation - 1]? = some s.rotations[issue.generation - 1] :=
      List.getElem?_eq_getElem within
    have since := rotated _ isTime
    obtain ⟨entry, found⟩ :=
      Lookup.of_key (generations.kept issue.generation _ positive isTime (by linarith))
    obtain ⟨stored, expires⟩ := entry
    obtain ⟨_, same, time⟩ := generations.previous _ (Lookup.mem found)
    rw [isTime] at time
    have time : s.rotations[issue.generation - 1] = expires - 30 := Option.some.inj time
    have valid : now < expires := by linarith
    rw [if_neg current, found]
    dsimp only
    rw [if_pos valid, ← isKey, same]

/-- A client that presents the nonce of an issue once, with the generation of the issue and a
creation time near to the clock, and that signs with the key of that generation. -/
structure Honest (crypto : Crypto κ) (s : Signing κ) (issue : NonceIssue) (request : SignedRequest)
    (body : List UInt8)
    (second : Seconds) : Prop where
  unpresented : issue.nonce ∉ s.presented
  nonce : request.nonce = issue.nonce
  generation : request.generation = toString issue.generation
  created : ∃ created, crypto.int request.created = some created ∧ |second - created| ≤ 30
  signed : ∃ key, s.keys[issue.generation - 1]? = some key ∧
    request.signature = crypto.hmac key (request.canonical crypto body)

theorem finish_verified {waiting : SignedCall} (later : s.clock ≤ now)
    (found : s.calls.lookup call = some waiting)
    (verified : s.auth.verifies crypto waiting.request waiting.generation body now = true) :
    s.step crypto (.finish call body now) = some { s with
      clock := now
      calls := s.calls.filter (fun entry => entry.1 ≠ call)
      accepted := s.accepted ++
        [⟨waiting.request, body, waiting.presented, now, s.auth.generation⟩] } := by
  unfold step
  dsimp only
  rw [if_pos later, found, Option.map_some, if_pos verified]

theorem honest_accepted (tracked : Tracked crypto s) {issue : NonceIssue} (issued : issue ∈ s.issues)
    (honest : Honest crypto s issue request body second)
    (presents : s.step crypto (.present request first second) = some t)
    (timely : first ≤ issue.time + 30) :
    (t.calls.lookup s.next).isSome = true ∧
      ∀ acts u now, Run (fun s act t => s.step crypto act = some t) t acts u →
      (u.calls.lookup s.next).isSome = true → u.clock ≤ now → now < issue.time + 30 →
      ∃ v, u.step crypto (.finish s.next body now) = some v ∧
        v.accepted = u.accepted ++ [⟨request, body, first, now, u.auth.generation⟩] := by
  have isChallenge := challenge_issue tracked issued honest.unpresented
  rw [← honest.nonce] at isChallenge
  obtain ⟨created, isCreated, near⟩ := honest.created
  have admitted : s.auth.admits crypto request first second = true := by
    unfold AuthManager.admits
    rw [isCreated, isChallenge]
    dsimp only
    rw [Bool.not_eq_true', Bool.or_eq_false_iff, Bool.or_eq_false_iff]
    exact ⟨⟨decide_eq_false (not_lt.mpr timely), decide_eq_false (not_lt.mpr near)⟩,
      decide_eq_false (not_not.mpr honest.generation)⟩
  have later := tracked_step tracked presents
  have grows := extends_step presents
  have holds : Holds s.next ⟨request, issue.generation, first⟩ t ∧
    (s.next, ⟨request, issue.generation, first⟩) ∈ t.calls := by
    unfold step at presents
    dsimp only at presents
    split at presents
    · cases presents
      rw [isChallenge]
      refine ⟨⟨Nat.lt_succ_self _, fun entry member same => ?_⟩,
        List.mem_append_right _ (List.mem_singleton_self _)⟩
      obtain old | new := List.mem_append.mp member
      · have below := (tracked.calls entry old).1
        omega
      · cases List.mem_singleton.mp new
        rfl
    · cases presents
  obtain ⟨holds, entered⟩ := holds
  constructor
  · exact List.lookup_isSome_iff.mpr ⟨_, entered, beq_self_eq_true _⟩
  · intro acts u now run waits after soon
    obtain ⟨waiting, found⟩ := Option.isSome_iff_exists.mp waits
    have tracked := run.invariant (fun tracked stepped => tracked_step tracked stepped) later
    obtain ⟨_, only⟩ := run.invariant (P := Holds s.next ⟨request, issue.generation, first⟩)
      (fun holds stepped => holds_step holds stepped) holds
    cases only _ (Lookup.mem found) rfl
    have known := run.relates (R := fun s t => Extends s t)
      (fun _ => ⟨fun _ issued => issued, List.prefix_refl _⟩)
      (fun first second =>
        ⟨fun _ issued => second.issues _ (first.issues _ issued), first.keys.trans second.keys⟩)
      (fun stepped => extends_step stepped)
    obtain ⟨key, isKey, signed⟩ := honest.signed
    have isKey := keyOf_issue tracked (known.issues _ (grows.issues _ issued))
      (entry_kept (grows.keys.trans known.keys) isKey) after soon
    have verified : u.auth.verifies crypto request issue.generation body now = true := by
      unfold AuthManager.verifies
      rw [isKey]
      exact decide_eq_true signed
    exact ⟨_, finish_verified after found verified, rfl⟩

/-- In every interleaving of issues, calls and rotations each nonce authenticates one request at
most, within thirty seconds of its issue and under the key of its generation, which is the current
one or was rotated away less than thirty seconds before. An honest client that is processed within
thirty seconds of the issue is authenticated. -/
theorem signed_requests (key : κ) (clock : Seconds) {acts : List (SigningAct κ)}
    (run : Run (fun s act t => s.step crypto act = some t) (start key clock) acts s) :
    (s.accepted.map (fun a => a.request.nonce)).Nodup ∧ (∀ a ∈ s.accepted, Authentic crypto s a) ∧
      ∀ issue ∈ s.issues, ∀ request body first second, Honest crypto s issue request body second →
        s.clock ≤ first → first ≤ second →
        first ≤ issue.time + 30 → ∃ t, s.step crypto (.present request first second) = some t ∧
          (t.calls.lookup s.next).isSome = true ∧
          ∀ later u finished, Run (fun s act t => s.step crypto act = some t) t later u →
            (u.calls.lookup s.next).isSome = true → u.clock ≤ finished → finished < issue.time + 30 →
            ∃ v, u.step crypto (.finish s.next body finished) = some v ∧
              v.accepted = u.accepted ++ [⟨request, body, first, finished, u.auth.generation⟩] := by
  have tracked : Tracked crypto s :=
    run.invariant (fun tracked stepped => tracked_step tracked stepped) (start_tracked key clock)
  refine ⟨(List.nodup_append.mp tracked.once).2.1, tracked.authentic, ?_⟩
  intro issue issued request body first second honest since order timely
  have presents : s.step crypto (.present request first second) = some _ := if_pos ⟨since, order⟩
  obtain ⟨waits, accepts⟩ := honest_accepted tracked issued honest presents timely
  exact ⟨_, presents, waits, accepts⟩

/-- SHA-256 and HMAC as they are on what the run below signs with the key `k`. -/
def sampleCrypto : Crypto Unit where
  int := fun text => if text = "1700000000" then some 1700000000 else none
  sha256 := fun _ => "e3b0c44298fc1c149afbf4c8996fb92427ae41e4649b934ca495991b7852b855"
  hmac := fun _ _ => "a0fff6b67d9bb5edf7c238f9d9f9f3f79853894a4802e8e420d35f40c16a73dc"

/-- A request with an empty body. -/
def sampleRequest : SignedRequest where
  method := "POST"
  path := "/api/v1/tasks"
  query := ""
  nonce := "n"
  created := "1700000000"
  generation := "1"
  signature := "a0fff6b67d9bb5edf7c238f9d9f9f3f79853894a4802e8e420d35f40c16a73dc"

/-- A request that is presented before a rotation is authenticated after it. -/
theorem signed_requests_rotated : ∃ s : Signing Unit, s.accepted.length = 1 ∧ s.auth.generation = 2 ∧
    (s.accepted.map (fun a => a.request.nonce)).Nodup ∧
      ∀ a ∈ s.accepted, Authentic sampleCrypto s a := by
  have replayed : (replay (fun s act => s.step sampleCrypto act) (fun _ _ => true) (start () 1700000000)
      [.issue "n" 1700000001, .present sampleRequest 1700000002 1700000003,
        .rotate 1700000004 (some ()),
        .finish 0 [] 1700000005]).any (fun s => s.accepted.length = 1 && s.auth.generation = 2) =
          true := by decide +kernel
  obtain ⟨s, isEnd, ends⟩ := (Option.any_eq_true _ _).mp replayed
  obtain ⟨one, second⟩ := Bool.and_eq_true_iff.mp ends
  have run : Run (Guarded (fun s act t => s.step sampleCrypto act = some t) (fun _ _ => True)) _ _ s :=
    replay_run (fun _ _ _ => trivial) isEnd
  obtain ⟨once, authentic, _⟩ := signed_requests () 1700000000 run.unguarded
  exact ⟨s, of_decide_eq_true one, of_decide_eq_true second, once, authentic⟩

end Signing
end LocalFlow
