import Mathlib.Data.Option.Basic

/-! Computations on a shared state whose calls may raise, and transactions made of them. A raise
keeps what the calls before it did, unless a transaction rolls it back. -/
namespace Faults

/-- What a computation returned (`none` when it raised), the state it left, and how many calls
still succeed (`none` when all do). -/
structure Outcome (S α : Type) where
  value : Option α
  state : S
  faults : Option Nat

def Work (S α : Type) := Option Nat → S → Outcome S α

namespace Work
variable {S α β : Type}

def ret (a : α) : Work S α := fun faults s => ⟨some a, s, faults⟩

def andThen (work : Work S α) (next : α → Work S β) : Work S β := fun faults s =>
  match work faults s with
  | ⟨some a, t, rest⟩ => next a rest t
  | ⟨none, t, rest⟩ => ⟨none, t, rest⟩

instance : Monad (Work S) where
  pure := ret
  bind := andThen

def raise : Work S α := fun faults s => ⟨none, s, faults⟩

/-- A call. It raises when its turn to fail has come, or by itself. -/
def call (f : S → Option (α × S)) : Work S α := fun faults s =>
  match faults with
  | some 0 => ⟨none, s, some 0⟩
  | _ =>
    match f s with
    | some (a, t) => ⟨some a, t, faults.map (· - 1)⟩
    | none => ⟨none, s, faults.map (· - 1)⟩

/-- A call that only reads. -/
def read (f : S → Option α) : Work S α := call (fun s => (f s).map (fun a => (a, s)))

/-- A call that only writes. -/
def write (f : S → Option S) : Work S Unit := call (fun s => (f s).map (fun t => ((), t)))

/-- A value computed between two calls. -/
def given (value : Option α) : Work S α :=
  match value with
  | some a => pure a
  | none => raise

def each (f : α → Work S β) : List α → Work S (List β)
  | [] => pure []
  | a :: rest => do
    let b ← f a
    let bs ← each f rest
    pure (b :: bs)

/-- `BEGIN`, the body and `COMMIT`; when any of them raises, everything is rolled back. -/
def transaction (body : Work S α) : Work S α := fun faults s =>
  let committed : Work S α := do
    read (fun _ => some ())
    let a ← body
    read (fun _ => some ())
    pure a
  match committed faults s with
  | ⟨some a, t, rest⟩ => ⟨some a, t, rest⟩
  | ⟨none, _, rest⟩ => ⟨none, s, rest⟩

/-- The computation can return `a` and leave `t`. -/
def Returns (work : Work S α) (s : S) (a : α) (t : S) : Prop :=
  ∃ faults rest, work faults s = ⟨some a, t, rest⟩

/-- The computation can raise and leave `t`. -/
def Raises (work : Work S α) (s t : S) : Prop :=
  ∃ faults rest, work faults s = ⟨none, t, rest⟩

/-- The computation returns `a` and leaves `t` when no call is made to fail. -/
def Succeeds (work : Work S α) (s : S) (a : α) (t : S) : Prop :=
  work none s = ⟨some a, t, none⟩

variable {work : Work S α} {next : α → Work S β} {s t : S} {a : α} {b : β}

theorem Succeeds.returns (succeeds : work.Succeeds s a t) : work.Returns s a t :=
  ⟨none, none, succeeds⟩

theorem returns_or_raises (work : Work S α) (faults : Option Nat) (s : S) :
    (∃ a, (work faults s).value = some a ∧ work.Returns s a (work faults s).state) ∨
    (work faults s).value = none ∧ work.Raises s (work faults s).state := by
  rcases outcome : work faults s with ⟨value, state, rest⟩
  cases value with
  | some a => exact .inl ⟨a, rfl, faults, rest, outcome⟩
  | none => exact .inr ⟨rfl, faults, rest, outcome⟩

theorem returns_pure {c : α} (h : (pure a : Work S α).Returns s c t) : c = a ∧ t = s := by
  obtain ⟨faults, rest, h⟩ := h
  cases h
  exact ⟨rfl, rfl⟩

theorem not_raises_pure (h : (pure a : Work S α).Raises s t) : False := by
  obtain ⟨faults, rest, h⟩ := h
  cases h

theorem returns_bind (h : (work >>= next).Returns s b t) :
    ∃ a u, work.Returns s a u ∧ (next a).Returns u b t := by
  obtain ⟨faults, rest, h⟩ := h
  change andThen work next faults s = _ at h
  unfold andThen at h
  split at h
  · rename_i a u later first
    exact ⟨a, u, ⟨faults, later, first⟩, later, rest, h⟩
  · cases h

theorem raises_bind (h : (work >>= next).Raises s t) :
    work.Raises s t ∨ ∃ a u, work.Returns s a u ∧ (next a).Raises u t := by
  obtain ⟨faults, rest, h⟩ := h
  change andThen work next faults s = _ at h
  unfold andThen at h
  split at h
  · rename_i a u later first
    exact .inr ⟨a, u, ⟨faults, later, first⟩, later, rest, h⟩
  · rename_i u later first
    cases h
    exact .inl ⟨faults, _, first⟩

theorem returns_call {f : S → Option (α × S)} (h : (call f).Returns s a t) : f s = some (a, t) := by
  obtain ⟨faults, rest, h⟩ := h
  unfold call at h
  split at h
  · cases h
  · split at h
    · rename_i worked
      cases h
      exact worked
    · cases h

/-- A call that raises has done nothing. -/
theorem raises_call {f : S → Option (α × S)} (h : (call f).Raises s t) : t = s := by
  obtain ⟨faults, rest, h⟩ := h
  unfold call at h
  split at h
  · cases h
    rfl
  · split at h
    · cases h
    · cases h
      rfl

theorem returns_read {f : S → Option α} (h : (read f).Returns s a t) : f s = some a ∧ t = s := by
  have called := returns_call h
  obtain ⟨b, found, same⟩ := Option.map_eq_some_iff.mp called
  cases same
  exact ⟨found, rfl⟩

theorem returns_write {f : S → Option S} {done : Unit} (h : (write f).Returns s done t) :
    f s = some t := by
  have called := returns_call h
  obtain ⟨u, found, same⟩ := Option.map_eq_some_iff.mp called
  cases same
  exact found

theorem returns_given {value : Option α} (h : (given value : Work S α).Returns s a t) :
    value = some a ∧ t = s := by
  cases value with
  | some b =>
    obtain ⟨rfl, rfl⟩ := returns_pure h
    exact ⟨rfl, rfl⟩
  | none =>
    obtain ⟨faults, rest, h⟩ := h
    cases h

theorem raises_given {value : Option α} (h : (given value : Work S α).Raises s t) : t = s := by
  obtain ⟨faults, rest, h⟩ := h
  cases value <;> cases h
  rfl

theorem returns_transaction (h : (transaction work).Returns s a t) : work.Returns s a t := by
  obtain ⟨faults, rest, h⟩ := h
  unfold transaction at h
  simp only at h
  split at h
  · rename_i b u later committed
    cases h
    obtain ⟨_, v, opened, begun⟩ := returns_bind (⟨faults, _, committed⟩ : Work.Returns _ s a t)
    obtain ⟨_, rfl⟩ := returns_read opened
    obtain ⟨c, w, body, ended⟩ := returns_bind begun
    obtain ⟨_, x, closed, last⟩ := returns_bind ended
    obtain ⟨_, rfl⟩ := returns_read closed
    obtain ⟨rfl, rfl⟩ := returns_pure last
    exact body
  · cases h

/-- A transaction that raises leaves everything as it was. -/
theorem raises_transaction (h : (transaction work).Raises s t) : t = s := by
  obtain ⟨faults, rest, h⟩ := h
  unfold transaction at h
  simp only at h
  split at h
  · cases h
  · cases h
    rfl

theorem each_cons (f : α → Work S β) (item : α) (rest : List α) :
    each f (item :: rest) = f item >>= fun b => each f rest >>= fun bs => pure (b :: bs) := rfl

theorem raises_read {f : S → Option α} (h : (read f).Raises s t) : t = s := raises_call h

theorem each_reads {γ : Type} {f : γ → S → Option β} {items : List γ} {found : List β}
    (h : (each (fun item => read (f item)) items).Returns s found t) :
    t = s ∧ items.mapM (fun item => f item s) = some found := by
  induction items generalizing s found t with
  | nil =>
    obtain ⟨rfl, rfl⟩ := returns_pure h
    exact ⟨rfl, rfl⟩
  | cons item rest ih =>
    rw [each_cons] at h
    obtain ⟨b, u, first, after⟩ := returns_bind h
    obtain ⟨one, rfl⟩ := returns_read first
    obtain ⟨bs, v, later, last⟩ := returns_bind after
    obtain ⟨rfl, others⟩ := ih later
    obtain ⟨rfl, rfl⟩ := returns_pure last
    exact ⟨rfl, by simp [one, others]⟩

theorem each_reads_raises {γ : Type} {f : γ → S → Option β} {items : List γ}
    (h : (each (fun item => read (f item)) items).Raises s t) : t = s := by
  induction items generalizing s t with
  | nil => exact (not_raises_pure h).elim
  | cons item rest ih =>
    rw [each_cons] at h
    obtain first | ⟨b, u, first, after⟩ := raises_bind h
    · exact raises_read first
    · obtain ⟨_, rfl⟩ := returns_read first
      obtain later | ⟨bs, v, _, last⟩ := raises_bind after
      · exact ih later
      · exact (not_raises_pure last).elim

/-- A raise comes from the first computation, or from the second with the calls the first left. -/
theorem raises_bind_at {faults rest : Option Nat} (h : (work >>= next) faults s = ⟨none, t, rest⟩) :
    work faults s = ⟨none, t, rest⟩ ∨
    ∃ a u later, work faults s = ⟨some a, u, later⟩ ∧ next a later u = ⟨none, t, rest⟩ := by
  change andThen work next faults s = _ at h
  unfold andThen at h
  split at h
  · rename_i a u later first
    exact .inr ⟨a, u, later, first, h⟩
  · rename_i u later first
    cases h
    exact .inl first

theorem returns_bind_at {faults rest : Option Nat} (h : (work >>= next) faults s = ⟨some b, t, rest⟩) :
    ∃ a u later, work faults s = ⟨some a, u, later⟩ ∧ next a later u = ⟨some b, t, rest⟩ := by
  change andThen work next faults s = _ at h
  unfold andThen at h
  split at h
  · rename_i a u later first
    exact ⟨a, u, later, first, h⟩
  · cases h

/-- A call that works by itself raises only when its turn to fail has come. -/
theorem raises_call_at {f : S → Option (α × S)} {faults rest : Option Nat}
    (h : call f faults s = ⟨none, t, rest⟩) (works : (f s).isSome) : faults = some 0 := by
  unfold call at h
  split at h
  · rfl
  · split at h
    · cases h
    · rename_i fails
      rw [fails] at works
      cases works

/-- When the computation returns it has made `n` calls. -/
def Costs (work : Work S α) (n : Nat) : Prop :=
  ∀ faults s a t rest, work faults s = ⟨some a, t, rest⟩ →
    faults = none ∧ rest = none ∨ ∃ k, faults = some (k + n) ∧ rest = some k

section Costs
variable {m n : Nat}

theorem costs_pure : (pure a : Work S α).Costs 0 := by
  intro faults s b t rest h
  cases h
  cases faults with
  | none => exact .inl ⟨rfl, rfl⟩
  | some k => exact .inr ⟨k, rfl, rfl⟩

theorem costs_call (f : S → Option (α × S)) : (call f).Costs 1 := by
  intro faults s b t rest h
  unfold call at h
  split at h
  · cases h
  · rename_i later
    split at h
    · cases h
      cases faults with
      | none => exact .inl ⟨rfl, rfl⟩
      | some k =>
        cases k with
        | zero => exact absurd rfl later
        | succ k => exact .inr ⟨k, rfl, rfl⟩
    · cases h

theorem costs_given (value : Option α) : (given value : Work S α).Costs 0 := by
  cases value with
  | some a => exact costs_pure
  | none =>
    intro faults s b t rest h
    cases h

theorem costs_bind (first : work.Costs m) (second : ∀ a, (next a).Costs n) :
    (work >>= next).Costs (m + n) := by
  intro faults s b t rest h
  obtain ⟨a, u, later, one, two⟩ := returns_bind_at h
  rcases first faults s a u later one with ⟨rfl, rfl⟩ | ⟨k, rfl, rfl⟩
  · rcases second a none u b t rest two with ⟨_, rfl⟩ | ⟨k, impossible, _⟩
    · exact .inl ⟨rfl, rfl⟩
    · cases impossible
  · rcases second a (some k) u b t rest two with ⟨impossible, _⟩ | ⟨j, same, rfl⟩
    · cases impossible
    · cases same
      exact .inr ⟨j, by rw [Nat.add_assoc, Nat.add_comm n m], rfl⟩

/-- `BEGIN` and `COMMIT` are calls too. -/
theorem costs_transaction (body : work.Costs n) : (transaction work).Costs (n + 2) := by
  intro faults s b t rest h
  unfold transaction at h
  simp only at h
  split at h
  · rename_i c u later committed
    cases h
    have opened : (do
        read (fun _ => some ())
        let a ← work
        read (fun _ => some ())
        pure a : Work S α).Costs (1 + (n + (1 + 0))) :=
      costs_bind (costs_call _)
        (fun _ => costs_bind body (fun _ => costs_bind (costs_call _) (fun _ => costs_pure)))
    have total : 1 + (n + (1 + 0)) = n + 2 := by omega
    rw [total] at opened
    exact opened faults s b t rest committed
  · cases h

end Costs

section Succeeds

theorem succeeds_pure : (pure a : Work S α).Succeeds s a s := rfl

theorem succeeds_bind {u : S} (first : work.Succeeds s a u) (later : (next a).Succeeds u b t) :
    (work >>= next).Succeeds s b t := by
  change andThen work next none s = _
  unfold andThen
  rw [first]
  exact later

theorem succeeds_call {f : S → Option (α × S)} (works : f s = some (a, t)) :
    (call f).Succeeds s a t := by
  unfold Succeeds call
  simp [works]

theorem succeeds_read {f : S → Option α} (found : f s = some a) : (read f).Succeeds s a s :=
  succeeds_call (by simp [found])

theorem succeeds_transaction (body : work.Succeeds s a t) : (transaction work).Succeeds s a t := by
  have committed : (do
      read (fun _ => some ())
      let a ← work
      read (fun _ => some ())
      pure a : Work S α).Succeeds s a t := by
    refine succeeds_bind (succeeds_read rfl) ?_
    refine succeeds_bind body ?_
    exact succeeds_bind (succeeds_read rfl) succeeds_pure
  unfold Succeeds at committed ⊢
  unfold transaction
  simp only [committed]

theorem succeeds_each_read {γ : Type} {f : γ → S → Option β} {items : List γ} {found : List β}
    (reads : items.mapM (fun item => f item s) = some found) :
    (each (fun item => read (f item)) items).Succeeds s found s := by
  induction items generalizing found with
  | nil =>
    cases reads
    exact succeeds_pure
  | cons item rest ih =>
    simp only [List.mapM_cons, Option.pure_def, Option.bind_eq_bind, Option.bind_eq_some_iff,
      Option.some.injEq] at reads
    obtain ⟨b, one, bs, others, rfl⟩ := reads
    exact succeeds_bind (succeeds_read one) (succeeds_bind (ih others) succeeds_pure)

end Succeeds

end Work
end Faults
