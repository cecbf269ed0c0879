import LocalFlow.Library.Lookup

/-! Several sources fill one table, key after key. A source stops at the first key that is taken
already or has no value. What it entered before stays in the table. -/
namespace Entering
variable {κ V ε σ : Type*} [DecidableEq κ]

/-- A key with its value and the fault of a source that finds the key taken, or a fault on its own. -/
inductive Attempt (κ V ε : Type*) where
  | enter (key : κ) (outcome : Except ε V) (clash : ε)
  | stop (fault : ε)

def keys : List (Attempt κ V ε) → List κ
  | [] => []
  | .enter key _ _ :: rest => key :: keys rest
  | .stop _ :: rest => keys rest

def entries : List (Attempt κ V ε) → List (κ × V)
  | [] => []
  | .enter key (.ok value) _ :: rest => (key, value) :: entries rest
  | .enter _ (.error _) _ :: rest => entries rest
  | .stop _ :: rest => entries rest

def advance (table : List (κ × V)) : List (Attempt κ V ε) → List (κ × V) × Option ε
  | [] => (table, none)
  | .stop fault :: _ => (table, some fault)
  | .enter key outcome clash :: rest =>
    if key ∈ table.map Prod.fst then (table, some clash)
    else
      match outcome with
      | .error fault => (table, some fault)
      | .ok value => advance (table ++ [(key, value)]) rest

theorem advance_clash {table : List (κ × V)} {key : κ} (held : key ∈ table.map Prod.fst)
    (outcome : Except ε V) (clash : ε)
    (rest : List (Attempt κ V ε)) :
    advance table (.enter key outcome clash :: rest) = (table, some clash) :=
  if_pos held

theorem advance_fault {table : List (κ × V)} {key : κ} (fresh : key ∉ table.map Prod.fst)
    (fault clash : ε)
    (rest : List (Attempt κ V ε)) :
    advance table (.enter key (.error fault) clash :: rest) = (table, some fault) :=
  if_neg fresh

theorem advance_enter {table : List (κ × V)} {key : κ} (fresh : key ∉ table.map Prod.fst)
    (value : V) (clash : ε)
    (rest : List (Attempt κ V ε)) :
    advance table (.enter key (.ok value) clash :: rest) = advance (table ++ [(key, value)]) rest :=
  if_neg fresh

theorem advance_append (table : List (κ × V)) (steps more : List (Attempt κ V ε)) :
    advance table (steps ++ more) =
      match advance table steps with
      | (reached, none) => advance reached more
      | (reached, some fault) => (reached, some fault) := by
  induction steps generalizing table with
  | nil => rfl
  | cons step rest ih =>
    cases step with
    | stop fault => rfl
    | enter key outcome clash =>
      by_cases held : key ∈ table.map Prod.fst
      · rw [List.cons_append, advance_clash held, advance_clash held]
      · cases outcome with
        | error fault => rw [List.cons_append, advance_fault held, advance_fault held]
        | ok value => rw [List.cons_append, advance_enter held, advance_enter held, ih]

/-- Every source in turn, with the faults of those that stop. -/
def fill (table : List (κ × V)) : List (σ × List (Attempt κ V ε)) → List (κ × V) × List (σ × ε)
  | [] => (table, [])
  | (source, steps) :: rest =>
    ((fill (advance table steps).1 rest).1,
      (advance table steps).2.toList.map (Prod.mk source) ++ (fill (advance table steps).1 rest).2)

/-- The source stops before its first key is entered. -/
inductive Idle (taken : List κ) : List (Attempt κ V ε) → Prop where
  | stop (fault : ε) (rest : List (Attempt κ V ε)) : Idle taken (.stop fault :: rest)
  | clash (key : κ) (outcome : Except ε V) (clash : ε) (rest : List (Attempt κ V ε))
      (held : key ∈ taken) :
      Idle taken (.enter key outcome clash :: rest)
  | fault (key : κ) (fault clash : ε) (rest : List (Attempt κ V ε)) : Idle taken
      (.enter key (.error fault) clash :: rest)

/-- The source gets to its end. -/
inductive Passing : List κ → List (Attempt κ V ε) → Prop where
  | nil (taken : List κ) : Passing taken []
  | enter (taken : List κ) (key : κ) (value : V) (clash : ε) (rest : List (Attempt κ V ε))
      (fresh : key ∉ taken)
      (passes : Passing (taken ++ [key]) rest) : Passing taken (.enter key (.ok value) clash :: rest)

/-- Every source stops before its first key is entered or gets to its end. -/
inductive Whole : List κ → List (σ × List (Attempt κ V ε)) → Prop where
  | nil (taken : List κ) : Whole taken []
  | idle (taken : List κ) (source : σ) (steps : List (Attempt κ V ε))
      (rest : List (σ × List (Attempt κ V ε)))
      (idles : Idle taken steps) (remains : Whole taken rest) : Whole taken ((source, steps) :: rest)
  | passing (taken : List κ) (source : σ) (steps : List (Attempt κ V ε))
      (rest : List (σ × List (Attempt κ V ε)))
      (passes : Passing taken steps) (remains : Whole (taken ++ keys steps) rest) : Whole taken
        ((source, steps) :: rest)

variable {taken : List κ} {steps : List (Attempt κ V ε)} {table : List (κ × V)}
  {sources : List (σ × List (Attempt κ V ε))}

omit [DecidableEq κ] in
theorem Idle.not_passing (idles : Idle taken steps) : ¬ Passing taken steps := by
  intro passes
  cases passes with
  | nil => cases idles
  | enter _ key value clash rest fresh passes =>
    cases idles with
    | clash _ _ _ _ held => exact fresh held

omit [DecidableEq κ] in
theorem Passing.keys_entries (passes : Passing taken steps) :
    (entries steps).map Prod.fst = keys steps := by
  induction passes with
  | nil taken => rfl
  | enter taken key value clash rest fresh passes ih => exact congrArg (key :: ·) ih

omit [DecidableEq κ] in
theorem Passing.split {steps more : List (Attempt κ V ε)} (passes : Passing taken (steps ++ more)) :
    Passing taken steps ∧ Passing (taken ++ keys steps) more := by
  induction steps generalizing taken with
  | nil => exact ⟨.nil taken, by simpa [keys] using passes⟩
  | cons step rest ih =>
    cases passes with
    | enter _ key value clash _ fresh passes =>
      obtain ⟨first, second⟩ := ih passes
      exact ⟨.enter taken key value clash rest fresh
        first, by simpa [keys, List.append_assoc] using second⟩

omit [DecidableEq κ] in
theorem Passing.mono {fewer : List κ} (part : fewer ⊆ taken) (passes : Passing taken steps) :
    Passing fewer steps := by
  induction passes generalizing fewer with
  | nil => exact .nil fewer
  | enter taken key value clash rest fresh _ ih =>
    exact .enter fewer key value clash rest (fun held => fresh (part held)) (ih (List.append_subset.mpr
      ⟨List.Subset.trans part (List.subset_append_left ..), List.subset_append_right ..⟩))

omit [DecidableEq κ] in
theorem keys_append (steps more : List (Attempt κ V ε)) :
    keys (steps ++ more) = keys steps ++ keys more := by
  induction steps with
  | nil => rfl
  | cons step rest ih =>
    cases step with
    | stop fault => exact ih
    | enter key outcome clash => exact congrArg (key :: ·) ih

omit [DecidableEq κ] in
theorem entries_append (steps more : List (Attempt κ V ε)) :
    entries (steps ++ more) = entries steps ++ entries more := by
  induction steps with
  | nil => rfl
  | cons step rest ih =>
    cases step with
    | stop fault => exact ih
    | enter key outcome clash =>
      cases outcome with
      | error fault => exact ih
      | ok value => exact congrArg ((key, value) :: ·) ih

omit [DecidableEq κ] in
theorem entries_flatten (parts : List (List (Attempt κ V ε))) :
    entries parts.flatten = parts.flatMap entries := by
  induction parts with
  | nil => rfl
  | cons part rest ih => rw [List.flatten_cons, entries_append, ih, List.flatMap_cons]

omit [DecidableEq κ] in
/-- Sources that enter nothing, each by itself, enter nothing one after the other. -/
theorem whole_of_idle {sources : List (σ × List (Attempt κ V ε))}
    (idle : ∀ source ∈ sources, source.2 = [] ∨ Idle [] source.2) : Whole [] sources := by
  induction sources with
  | nil => exact .nil []
  | cons source rest ih =>
    have remains := ih (fun other member => idle other (List.mem_cons_of_mem _ member))
    obtain ⟨name, steps⟩ := source
    rcases idle _ List.mem_cons_self with empty | idles
    · dsimp only at empty
      subst empty
      exact .passing [] name [] rest (.nil []) remains
    · exact .idle [] name steps rest idles remains

/-- The three ways of a source: it enters nothing, all or some of its keys. -/
inductive Attempted (table : List (κ × V)) (steps : List (Attempt κ V ε)) :
    List (κ × V) × Option ε → Prop where
  | idle (fault : ε) (idles : Idle (table.map Prod.fst) steps) : Attempted table steps
      (table, some fault)
  | passing (passes : Passing (table.map Prod.fst) steps) : Attempted table steps
      (table ++ entries steps, none)
  | broken (first : κ × V) (added : List (κ × V)) (fault : ε)
      (active : ¬ Idle (table.map Prod.fst) steps)
      (stuck : ¬ Passing (table.map Prod.fst) steps)
        (starts : first :: added <+: entries steps) : Attempted table steps
        (table ++ first :: added, some fault)

theorem advance_cases (table : List (κ × V)) (steps : List (Attempt κ V ε)) :
    Attempted table steps (advance table steps) := by
  induction steps generalizing table with
  | nil => simpa [advance, entries] using Attempted.passing (Passing.nil (table.map Prod.fst))
  | cons step rest ih =>
    cases step with
    | stop fault => exact .idle fault (.stop fault rest)
    | enter key outcome clash =>
      by_cases held : key ∈ table.map Prod.fst
      · rw [advance_clash held]
        exact .idle clash (.clash key outcome clash rest held)
      · cases outcome with
        | error fault =>
          rw [advance_fault held]
          exact .idle fault (.fault key fault clash rest)
        | ok value =>
          rw [advance_enter held]
          have active : ¬ Idle (table.map Prod.fst) (Attempt.enter key (.ok value) clash :: rest) := by
            intro idles
            cases idles with
            | clash _ _ _ _ member => exact held member
          have onward (passes : Passing (table.map Prod.fst)
            (Attempt.enter key (.ok value) clash :: rest)) :
              Passing ((table ++ [(key, value)]).map Prod.fst) rest := by
            cases passes with
            | enter _ _ _ _ _ _ passes =>
              simpa only [List.map_append, List.map_cons, List.map_nil] using passes
          generalize reached : advance (table ++ [(key, value)]) rest = result
          have step := reached ▸ ih (table ++ [(key, value)])
          cases step with
          | idle fault idles =>
            exact .broken (key, value) [] fault active
              (fun passes => idles.not_passing (onward passes)) ⟨entries rest, rfl⟩
          | passing passes =>
            rw [List.append_assoc]
            refine .passing (.enter _ key value clash rest held ?_)
            simpa only [List.map_append, List.map_cons, List.map_nil] using passes
          | broken first added fault _ stuck starts =>
            rw [List.append_assoc]
            exact .broken (key, value) (first :: added) fault active
              (fun passes => stuck (onward passes))
              ((List.prefix_cons_inj _).mpr starts)

/-- What the source leaves of the table, and what it adds. -/
theorem advance_grows (table : List (κ × V)) (steps : List (Attempt κ V ε)) :
    ∃ added, (advance table steps).1 = table ++ added ∧ added <+: entries steps := by
  generalize reached : advance table steps = result
  have step := reached ▸ advance_cases table steps
  cases step with
  | idle fault idles => exact ⟨[], (List.append_nil table).symm, List.nil_prefix⟩
  | passing passes => exact ⟨entries steps, rfl, List.prefix_refl _⟩
  | broken first added fault active stuck starts => exact ⟨first :: added, rfl, starts⟩

theorem advance_nodup (unique : (table.map Prod.fst).Nodup) (steps : List (Attempt κ V ε)) :
    ((advance table steps).1.map Prod.fst).Nodup := by
  induction steps generalizing table with
  | nil => exact unique
  | cons step rest ih =>
    cases step with
    | stop fault => exact unique
    | enter key outcome clash =>
      by_cases held : key ∈ table.map Prod.fst
      · rw [advance_clash held]
        exact unique
      · cases outcome with
        | error fault =>
          rw [advance_fault held]
          exact unique
        | ok value =>
          rw [advance_enter held]
          apply ih
          rw [List.map_append]
          exact unique.append (List.nodup_singleton key) (by simpa using held)

theorem fill_nodup (unique : (table.map Prod.fst).Nodup) (sources : List (σ × List (Attempt κ V ε))) :
    ((fill table sources).1.map Prod.fst).Nodup := by
  induction sources generalizing table with
  | nil => exact unique
  | cons source rest ih => exact ih (advance_nodup unique source.2)

theorem fill_keeps {entry : κ × V} (member : entry ∈ table) : entry ∈ (fill table sources).1 := by
  induction sources generalizing table with
  | nil => exact member
  | cons source rest ih =>
    obtain ⟨added, grown, _⟩ := advance_grows table source.2
    apply ih
    rw [grown]
    exact List.mem_append_left _ member

/-- Whether anything is entered at all is seen at each source by itself. -/
theorem fill_entered_iff (sources : List (σ × List (Attempt κ V ε))) :
    (fill [] sources).1 ≠ [] ↔ ∃ source ∈ sources, source.2 ≠ [] ∧ ¬ Idle [] source.2 := by
  induction sources with
  | nil => simp [fill]
  | cons source rest ih =>
    obtain ⟨name, steps⟩ := source
    have either : (∃ source ∈ (name, steps) :: rest, source.2 ≠ [] ∧ ¬ Idle [] source.2) ↔
        (steps ≠ [] ∧ ¬ Idle [] steps) ∨ ∃ source ∈ rest, source.2 ≠ [] ∧ ¬ Idle [] source.2 := by
      simp only [List.mem_cons, or_and_right, exists_or, exists_eq_left]
    rw [fill, either]
    generalize reached : advance [] steps = result
    have step := reached ▸ advance_cases [] steps
    cases step with
    | idle fault idles => rw [ih, or_iff_right (fun active => active.2 idles)]
    | passing passes =>
      cases passes with
      | nil => simpa [entries] using ih
      | enter _ key value clash others fresh _ =>
        refine ⟨fun _ => .inl ⟨nofun, ?_⟩, fun _ empty => ?_⟩
        · intro idles
          cases idles with
          | clash _ _ _ _ held => exact fresh held
        · have kept : (key, value) ∈
            (fill ([] ++ entries (Attempt.enter key (.ok value) clash :: others)) rest).1 :=
            fill_keeps List.mem_cons_self
          rw [empty] at kept
          cases kept
    | broken first added fault active _ _ =>
      refine ⟨fun _ => .inl ⟨?_, active⟩, fun _ empty => ?_⟩
      · rintro rfl
        simp [advance] at reached
      · have kept : first ∈ (fill ([] ++ first :: added) rest).1 := fill_keeps List.mem_cons_self
        rw [empty] at kept
        cases kept

/-- A source without a fault got to its end. -/
theorem fill_passing {source : σ × List (Attempt κ V ε)} (member : source ∈ sources)
    (clean : source.1 ∉ (fill table sources).2.map Prod.fst) : ∃ taken, Passing taken source.2 := by
  induction sources generalizing table with
  | nil => cases member
  | cons first rest ih =>
    rw [fill, List.map_append, List.mem_append, not_or] at clean
    cases member with
    | head =>
      generalize reached : advance table source.2 = result at clean
      have step := reached ▸ advance_cases table source.2
      cases step with
      | idle => exact absurd List.mem_cons_self clean.1
      | passing passes => exact ⟨_, passes⟩
      | broken => exact absurd List.mem_cons_self clean.1
    | tail _ member => exact ih member clean.2

/-- The fault of one source is known under its name. -/
theorem eq_of_mem_own {own : Option ε} {name other : σ}
    (mine : other ∈ (own.toList.map (Prod.mk name)).map Prod.fst) : other = name := by
  rw [List.map_map] at mine
  obtain ⟨_, _, same⟩ := List.mem_map.mp mine
  exact same.symm

theorem fill_faults {source : σ} (faulty : source ∈ (fill table sources).2.map Prod.fst) :
    source ∈ sources.map Prod.fst := by
  induction sources generalizing table with
  | nil => cases faulty
  | cons first rest ih =>
    rw [fill, List.map_append, List.mem_append] at faulty
    rcases faulty with own | later
    · exact eq_of_mem_own own ▸ List.mem_cons_self
    · exact List.mem_cons_of_mem _ (ih later)

/-- What the first source does where none stops midway. -/
theorem Whole.advance {name : σ} (whole : Whole (table.map Prod.fst) ((name, steps) :: sources)) :
    Whole ((advance table steps).1.map Prod.fst) sources ∧
      ((∃ fault, advance table steps = (table, some fault)) ∨
        advance table steps = (table ++ entries steps, none)) := by
  generalize reached : Entering.advance table steps = result
  have step := reached ▸ advance_cases table steps
  cases step with
  | idle fault idles =>
    cases whole with
    | idle _ _ _ _ _ remains => exact ⟨remains, .inl ⟨fault, rfl⟩⟩
    | passing _ _ _ _ passes _ => exact absurd passes idles.not_passing
  | passing passes =>
    cases whole with
    | idle _ _ _ _ idles _ => exact absurd passes idles.not_passing
    | passing _ _ _ _ _ remains =>
      rw [List.map_append, passes.keys_entries]
      exact ⟨remains, .inr rfl⟩
  | broken _ _ _ active stuck _ =>
    cases whole with
    | idle _ _ _ _ idles _ => exact absurd idles active
    | passing _ _ _ _ passes _ => exact absurd passes stuck

/-- A source that stops leaves no trace where none stops midway: without it the others do what they
did. -/
theorem fill_without [DecidableEq σ] {bad : σ} (distinct : (sources.map Prod.fst).Nodup)
    (whole : Whole (table.map Prod.fst) sources) (faulty : bad ∈ (fill table sources).2.map Prod.fst) :
    fill table (sources.filter (fun source => source.1 ≠ bad)) =
      ((fill table sources).1, (fill table sources).2.filter (fun fault => fault.1 ≠ bad)) := by
  induction sources generalizing table with
  | nil => cases faulty
  | cons source rest ih =>
    obtain ⟨name, steps⟩ := source
    obtain ⟨apart, unique⟩ := List.nodup_cons.mp distinct
    obtain ⟨onward, first⟩ := whole.advance
    by_cases same : name = bad
    · subst same
      have others : rest.filter (fun other => other.1 ≠ name) = rest := by
        refine List.filter_eq_self.mpr (fun other member => ?_)
        exact decide_eq_true (fun same => apart (List.mem_map.mpr ⟨other, member, same⟩))
      have clean : (fill table rest).2.filter (fun fault => fault.1 ≠ name) = (fill table rest).2 := by
        refine List.filter_eq_self.mpr (fun fault member => ?_)
        exact decide_eq_true (fun same => apart (fill_faults (List.mem_map.mpr ⟨fault, member, same⟩)))
      rcases first with ⟨fault, stops⟩ | passes
      · rw [List.filter_cons_of_neg (by simp), others, fill, stops, List.filter_append, clean]
        simp
      · rw [fill, passes] at faulty
        exact absurd (fill_faults faulty) apart
    · have own : ((Entering.advance table steps).2.toList.map (Prod.mk name)).filter
        (fun fault => fault.1 ≠ bad) =
          (Entering.advance table steps).2.toList.map (Prod.mk name) := by
        refine List.filter_eq_self.mpr (fun fault member => ?_)
        obtain ⟨_, _, rfl⟩ := List.mem_map.mp member
        exact decide_eq_true same
      have later : bad ∈ (fill (Entering.advance table steps).1 rest).2.map Prod.fst := by
        rw [fill, List.map_append, List.mem_append] at faulty
        refine faulty.resolve_left (fun mine => ?_)
        obtain ⟨_, member, isBad⟩ := List.mem_map.mp mine
        obtain ⟨_, _, rfl⟩ := List.mem_map.mp member
        exact same isBad
      have kept : ((name, steps) :: rest).filter (fun other => other.1 ≠ bad) =
          (name, steps) :: rest.filter (fun other => other.1 ≠ bad) :=
            List.filter_cons_of_pos (decide_eq_true same)
      rw [kept, fill, ih unique onward later, fill, List.filter_append, own]

section Owners
variable (owner : V → σ)

/-- Every value names the source it comes from. -/
def Signed (sources : List (σ × List (Attempt κ V ε))) : Prop :=
  ∀ source ∈ sources, ∀ entry ∈ entries source.2, owner entry.2 = source.1

/-- A source that stops enters nothing, and one that does not enters exactly its keys. -/
def Atomic (sources : List (σ × List (Attempt κ V ε))) (table : List (κ × V))
    (faults : List (σ × ε)) : Prop :=
  ∀ source ∈ sources,
    (source.1 ∈ faults.map Prod.fst → ∀ entry ∈ table, owner entry.2 ≠ source.1) ∧
    (source.1 ∉ faults.map Prod.fst →
      ∀ key, (∃ value, (key, value) ∈ table ∧ owner value = source.1) ↔ key ∈ keys source.2)

variable {owner} {entry : κ × V}

omit [DecidableEq κ] in
theorem Signed.tail {source : σ × List (Attempt κ V ε)} (owned : Signed owner (source :: sources)) :
    Signed owner sources :=
  fun other member => owned other (List.mem_cons_of_mem _ member)

theorem Signed.advance {source : σ × List (Attempt κ V ε)} (owned : Signed owner (source :: sources))
    (member : entry ∈ (advance table source.2).1) : entry ∈ table ∨ owner entry.2 = source.1 := by
  obtain ⟨added, grown, starts⟩ := advance_grows table source.2
  rw [grown, List.mem_append] at member
  exact member.imp_right (fun new => owned source List.mem_cons_self entry (starts.subset new))

theorem Signed.fill (owned : Signed owner sources) (member : entry ∈ (fill table sources).1) :
    entry ∈ table ∨ owner entry.2 ∈ sources.map Prod.fst := by
  induction sources generalizing table with
  | nil => exact .inl member
  | cons source rest ih =>
    rcases ih owned.tail member with earlier | later
    · rcases owned.advance earlier with old | new
      · exact .inl old
      · exact .inr (new ▸ List.mem_cons_self)
    · exact .inr (List.mem_cons_of_mem _ later)

omit [DecidableEq κ] in
/-- The later sources do not matter to what the first one does. -/
theorem atomic_cons {source : σ × List (Attempt κ V ε)}
    (distinct : ((source :: sources).map Prod.fst).Nodup)
    {faults : List (σ × ε)} {own : Option ε}
    (known : ∀ other ∈ faults.map Prod.fst, other ∈ sources.map Prod.fst)
    (first : (own ≠ none → ∀ entry ∈ table, owner entry.2 ≠ source.1) ∧
      (own = none → ∀ key, (∃ value, (key, value) ∈ table ∧ owner value = source.1) ↔
        key ∈ keys source.2)) :
    Atomic owner (source :: sources) table (own.toList.map (Prod.mk source.1) ++ faults) ↔
      Atomic owner sources table faults := by
  obtain ⟨apart, _⟩ := List.nodup_cons.mp distinct
  have later {other : σ} (member : other ∈ sources.map Prod.fst) :
      other ∈ (own.toList.map (Prod.mk source.1) ++ faults).map Prod.fst ↔
        other ∈ faults.map Prod.fst := by
    rw [List.map_append, List.mem_append, or_iff_right]
    intro mine
    exact apart (eq_of_mem_own mine ▸ member)
  have self : source.1 ∈ (own.toList.map (Prod.mk source.1) ++ faults).map Prod.fst ↔ own ≠ none := by
    rw [List.map_append, List.mem_append, or_iff_left (fun member => apart (known _ member))]
    cases own <;> simp
  constructor
  · intro atomic other member
    obtain ⟨stopped, passed⟩ := atomic other (List.mem_cons_of_mem _ member)
    rw [later (List.mem_map_of_mem member)] at stopped passed
    exact ⟨stopped, passed⟩
  · intro atomic other member
    cases member with
    | head =>
      rw [self]
      exact ⟨first.1, fun clean => first.2 (not_not.mp clean)⟩
    | tail _ member =>
      rw [later (List.mem_map_of_mem member)]
      exact atomic other member

/-- Sources that fill a table one key after the other are atomic exactly if none stops midway. -/
theorem fill_atomic_iff (owned : Signed owner sources) (distinct : (sources.map Prod.fst).Nodup)
    (foreign : ∀ entry ∈ table, owner entry.2 ∉ sources.map Prod.fst) :
    Atomic owner sources (fill table sources).1 (fill table sources).2 ↔
      Whole (table.map Prod.fst) sources := by
  induction sources generalizing table with
  | nil => exact ⟨fun _ => .nil _, fun _ _ member => nomatch member⟩
  | cons source rest ih =>
    obtain ⟨name, steps⟩ := source
    obtain ⟨apart, unique⟩ := List.nodup_cons.mp distinct
    rw [fill]
    have known (other : σ) (member : other ∈ (fill (advance table steps).1 rest).2.map Prod.fst) :=
      fill_faults member
    have outside {entry : κ × V} (member : entry ∈ (fill (advance table steps).1 rest).1)
      (mine : owner entry.2 = name) :
        entry ∈ (advance table steps).1 := by
      rcases owned.tail.fill member with old | new
      · exact old
      · exact absurd (mine ▸ new) apart
    have foreign' (entry : κ × V) (member : entry ∈ (advance table steps).1) : owner entry.2 ∉
      rest.map Prod.fst := by
      rcases owned.advance member with old | new
      · exact fun later => foreign entry old (List.mem_cons_of_mem _ later)
      · exact new ▸ apart
    have remaining := ih owned.tail unique foreign'
    revert remaining outside known
    generalize reached : advance table steps = result
    have step := reached ▸ advance_cases table steps
    cases step with
    | idle fault idles =>
      intro known outside remaining
      rw [@atomic_cons _ _ _ _ _ _ _ (name, steps) distinct _ _ known, remaining]
      · constructor
        · exact .idle _ name steps rest idles
        · intro whole
          cases whole with
          | idle _ _ _ _ _ remains => exact remains
          | passing _ _ _ _ passes _ => exact absurd passes idles.not_passing
      · refine ⟨fun _ entry member mine => ?_, nofun⟩
        exact foreign entry (outside member mine) (mine ▸ List.mem_cons_self)
    | passing passes =>
      intro known outside remaining
      rw [@atomic_cons _ _ _ _ _ _ _ (name, steps) distinct _ _ known, remaining, List.map_append,
        passes.keys_entries]
      · constructor
        · exact .passing _ name steps rest passes
        · intro whole
          cases whole with
          | idle _ _ _ _ idles _ => exact absurd passes idles.not_passing
          | passing _ _ _ _ _ remains => exact remains
      · refine ⟨fun stopped => absurd rfl stopped, fun _ key => ?_⟩
        rw [← passes.keys_entries]
        constructor
        · rintro ⟨value, member, mine⟩
          rcases List.mem_append.mp (outside member mine) with old | new
          · exact absurd (mine ▸ List.mem_cons_self) (foreign _ old)
          · exact List.mem_map_of_mem (f := Prod.fst) new
        · intro listed
          obtain ⟨⟨_, value⟩, member, rfl⟩ := List.mem_map.mp listed
          exact ⟨value, fill_keeps (List.mem_append_right _ member),
            owned (name, steps) List.mem_cons_self _ member⟩
    | broken first added fault active stuck starts =>
      intro known outside remaining
      constructor
      · intro atomic
        have entered : first ∈ (fill (table ++ first :: added) rest).1 :=
          fill_keeps (List.mem_append_right _ List.mem_cons_self)
        have mine := owned (name, steps) List.mem_cons_self first (starts.subset List.mem_cons_self)
        exact absurd mine ((atomic (name, steps) List.mem_cons_self).1 (by simp) first entered)
      · intro whole
        cases whole with
        | idle _ _ _ _ idles _ => exact absurd idles active
        | passing _ _ _ _ passes _ => exact absurd passes stuck

end Owners

end Entering
