import LocalFlow.Library.Fillings
import LocalFlow.Validation
import LocalFlow.Verification
import Std.Data.String.ToInt

/-! The mutex key the plugin `verification` derives for a run: what two keys compare, and when that
is the case and the set of labels of the stored tasks. -/
namespace LocalFlow
open References

/-! ## What the stored lists are -/

section Routes
variable {machine : Machine} {stopStrategy : Json → Option StopStrategy} {source : Json}
  {stamp : PluginStamp}
  {arguments : TaskArguments} {allocated : Values} {draft : Draft} {task : TaskCreate}
  {items kept : List String}

theorem override_nil (draft : Draft) : draft.override stopStrategy [] = some draft := by
  cases draft with
  | mk name workingDirectory source command labels mutexKeys custom template pluginSnapshot stop
      deferredValues =>
    cases deferredValues <;> rfl

/-- The names that validation accepted, with the deferred values in place. -/
theorem fillsAll_stored (filled : (items.map strip).mapM (Store.resolvedString allocated) = some kept) :
    List.Forall₂ allocated.Fills (items.map strip) (kept.map strip) := by
  have fills := (resolvedStrings_iff.mp filled).2
  rwa [fills_strip (names_trimmed items) fills]
where
  names_trimmed (items : List String) : ∀ item ∈ items.map strip, Trimmed item.toList := by
    intro item member
    obtain ⟨given, _, rfl⟩ := List.mem_map.mp member
    exact trimmed_strip given

/-- The lists of names of a stored task. -/
structure KeptNames (arguments : TaskArguments) (placing : Option Values) (task : TaskCreate) :
    Prop where
  labels : List.Forall₂ (Placed placing) (arguments.labels.map strip) task.labels
  mutexKeys : List.Forall₂ (Placed placing) (arguments.mutexKeys.map strip) task.mutexKeys
  distinct : task.labels.Nodup

theorem forall₂_placed_none {items : List String} : List.Forall₂ (Placed none) items items := by
  induction items with
  | nil => exact .nil
  | cons item items ih => exact .cons rfl ih

theorem materialized_distinct (done : draft.materialize machine allocated = some task) :
    task.labels.Nodup := by
  have valid : ∃ given : TaskCreate, given.validate = some task := by
    rw [Draft.materialize] at done
    split at done
    · obtain ⟨command, _, done⟩ := Option.bind_eq_some_iff.mp done
      exact ⟨_, done⟩
    · obtain ⟨name, _, done⟩ := Option.bind_eq_some_iff.mp done
      obtain ⟨workingDirectory, _, done⟩ := Option.bind_eq_some_iff.mp done
      obtain ⟨command, _, done⟩ := Option.bind_eq_some_iff.mp done
      obtain ⟨labels, _, done⟩ := Option.bind_eq_some_iff.mp done
      obtain ⟨mutexKeys, _, done⟩ := Option.bind_eq_some_iff.mp done
      obtain ⟨custom, _, done⟩ := Option.bind_eq_some_iff.mp done
      rw [Option.ite_none_left_eq_some] at done
      exact ⟨_, done.2⟩
  obtain ⟨given, accepted⟩ := valid
  obtain ⟨fields, rfl⟩ := validate_iff.mp accepted
  exact fields.labels.2.distinct

theorem commit_kept (done :
      (Route.plugin source stamp []).commit machine stopStrategy arguments allocated = some task) :
    KeptNames arguments ((Route.plugin source stamp []).placing arguments allocated) task := by
  obtain ⟨last, done, stored⟩ := Option.bind_eq_some_iff.mp done
  obtain ⟨first, built, done⟩ := Option.bind_eq_some_iff.mp done
  obtain ⟨second, register, done⟩ := Option.bind_eq_some_iff.mp done
  rw [override_nil] at done
  have construct := constructed built
  have register := registered register
  have prepare := prepared done
  have labels : last.labels = arguments.labels.map strip := by
    rw [prepare.labels, register.labels, construct.labels]
  have mutexKeys : last.mutexKeys = arguments.mutexKeys.map strip := by
    rw [prepare.mutexKeys, register.mutexKeys, construct.mutexKeys]
  have deferred : last.deferred = (Route.plugin source stamp []).deferred arguments := by
    rw [Draft.deferred, prepare.deferredValues, register.deferredValues, construct.deferredValues]
    rfl
  refine ⟨?_, ?_, materialized_distinct stored⟩ <;> rw [Route.placing, ← deferred]
  · cases materialized stored with
    | plain none _ _ _ same =>
      rw [if_pos none, same, labels, List.map_map, show strip ∘ strip = strip from funext strip_strip]
      exact forall₂_placed_none
    | deferred filled _ _ some _ _ _ done same =>
      rw [if_neg some, same]
      rw [labels] at done
      exact fillsAll_stored done
  · cases materialized stored with
    | plain none _ _ _ _ same =>
      rw [if_pos none, same, mutexKeys, List.map_map, show strip ∘
        strip = strip from funext strip_strip]
      exact forall₂_placed_none
    | deferred _ filled _ some _ _ _ _ _ done same =>
      rw [if_neg some, same]
      rw [mutexKeys] at done
      exact fillsAll_stored done

end Routes

/-! ## What is hashed -/

namespace Verification
variable {caseName other : String} {labels labels' : List String}

theorem queueIdentity_inj : queueIdentity caseName labels = queueIdentity other labels' ↔
    caseName = other ∧ labels.Perm labels' := by
  constructor
  · intro same
    have written : Quoted.writePlain caseName.toList ++ (',' ::
        (Quoted.writeList ((labels.insertionSort (· ≤ ·)).map String.toList) ++ [']'])) =
        Quoted.writePlain other.toList ++ (',' ::
        (Quoted.writeList ((labels'.insertionSort (· ≤ ·)).map String.toList) ++ [']'])) :=
      (List.cons.inj (String.ofList_injective same)).2
    obtain ⟨name, rest⟩ := Quoted.writePlain_append written
    obtain ⟨sorted, _⟩ := Quoted.writeList_append (List.cons.inj rest).2
    have texts := List.map_injective_iff.mpr (fun _ _ equal => String.toList_inj.mp equal) sorted
    exact ⟨String.toList_inj.mp name, Related.insertionSort_eq_iff.mp texts⟩
  · rintro ⟨rfl, perm⟩
    rw [queueIdentity, queueIdentity, Related.insertionSort_eq_iff.mpr perm]

variable {digest : Digest}

theorem derivedKey_inj
    (injective : digest.run (queueIdentity caseName labels) = digest.run (queueIdentity other labels') →
      queueIdentity caseName labels = queueIdentity other labels') :
    derivedKey digest caseName labels = derivedKey digest other labels' ↔ caseName = other ∧
      labels.Perm labels' := by
  rw [← queueIdentity_inj]
  constructor
  · intro same
    apply injective
    unfold derivedKey at same
    have chars := congrArg String.toList same
    rw [String.toList_append, String.toList_append] at chars
    exact String.toList_inj.mp (List.append_cancel_left chars)
  · intro same
    rw [derivedKey, derivedKey, same]

/-- The derived key holds neither a blank nor a dollar sign. -/
theorem derivedKey_chars (digest : Digest) (caseName : String) (labels : List String) :
    ∀ c ∈ (derivedKey digest caseName labels).toList, isSpace c = false ∧ c ≠ '$' := by
  intro c member
  rw [derivedKey, String.toList_append, List.mem_append] at member
  have letters : "verification:0123456789abcdef".toList.all (fun c => !isSpace c && c ≠ '$') =
    true := by decide
  have letter : c ∈ "verification:0123456789abcdef".toList := by
    rcases member with front | back
    · exact List.mem_append_left "0123456789abcdef".toList front
    · exact List.mem_append_right "verification:".toList (digest.hexadecimal _ c back)
  simpa using List.all_eq_true.mp letters c letter

theorem derivedKey_strip (digest : Digest) (caseName : String) (labels : List String) :
    strip (derivedKey digest caseName labels) = derivedKey digest caseName labels := by
  have chars := derivedKey_chars digest caseName labels
  apply strip_trimmed
  constructor
  · exact fun c first => (chars c (List.mem_of_mem_head? first)).1
  · exact fun c last => (chars c (List.mem_of_getLast? last)).1

end Verification

/-! ## What the seeds and the blanks make of labels -/

/-- A seed in place, or none. -/
def Seeded : Option Values → Prop
  | none => True
  | some allocated => ∃ seed : Int, allocated = [("seed", seed)]

/-- Labels that nothing but the blanks around them and the seeds put in keep apart. -/
def ComeAlike (placing placing' : Option Values) (labels labels' : List String) : Prop :=
  ∃ kept kept', List.Forall₂ (Placed placing) (labels.map strip) kept ∧
    List.Forall₂ (Placed placing') (labels'.map strip) kept' ∧ kept.Perm kept'

/-- The labels tell two tasks apart before the blanks go and the seeds come exactly as they do
afterwards. -/
structure Telling (placing placing' : Option Values) (labels labels' : List String) : Prop where
  seeds : labels.Perm labels' → placing = placing' ∨ ∀ label ∈ labels, ¬ Values.Mentions "seed" label
  texts : ComeAlike placing placing' labels labels' → labels.Perm labels'

section Seeds
variable {placing placing' : Option Values} {labels labels' kept kept' : List String}
  {text filled : String}

theorem isSpace_dollar : isSpace '$' = false := by decide

theorem isSpace_closing : isSpace closing = false := by decide

/-- A blank is no part of a reference, so stripping leaves every one. -/
theorem mentions_strip {name : String} :
    Values.Mentions name (strip text) ↔ Values.Mentions name text := by
  unfold Values.Mentions strip
  rw [String.toList_ofList]
  generalize name.toList = name
  constructor
  · rintro ⟨front, after, whole, named⟩
    have inside : ((text.toList.dropWhile isSpace).reverse.dropWhile isSpace).reverse <:+:
      text.toList := by
      refine List.IsInfix.trans (List.IsPrefix.isInfix ?_) (List.dropWhile_suffix isSpace).isInfix
      rw [← List.reverse_suffix, List.reverse_reverse]
      exact List.dropWhile_suffix isSpace
    obtain ⟨before, behind, around⟩ := inside
    rw [whole] at around
    exact ⟨before ++ front, after ++ behind, by rw [← around]; simp, named⟩
  · rintro ⟨front, after, whole, named⟩
    have first : text.toList.dropWhile isSpace = front.dropWhile isSpace ++ spelled name ++ after := by
      rw [whole, List.append_assoc, List.dropWhile_append]
      split
      · rename_i blank
        rw [List.isEmpty_iff.mp blank]
        exact List.dropWhile_cons_of_neg (by simp [isSpace_dollar])
      · rw [List.append_assoc]
    refine ⟨front.dropWhile isSpace, (after.reverse.dropWhile isSpace).reverse, ?_, named⟩
    have back : (front.dropWhile isSpace ++ spelled name).reverse.dropWhile isSpace =
        (front.dropWhile isSpace ++ spelled name).reverse := by
      rw [spelled, List.reverse_append, List.reverse_append]
      exact List.dropWhile_cons_of_neg (by simp [isSpace_closing])
    rw [first, List.reverse_append, List.dropWhile_append]
    split
    · rename_i blank
      rw [List.isEmpty_iff.mp blank, back]
      simp
    · rw [List.reverse_append, List.reverse_reverse]

theorem placed_unique (one : List.Forall₂ (Placed placing) labels kept)
    (two : List.Forall₂ (Placed placing) labels kept') : kept = kept' := by
  induction one generalizing kept' with
  | nil => exact (List.forall₂_nil_left_iff.mp two).symm
  | cons head _ ih =>
    obtain ⟨other, rest, head', tail', rfl⟩ := List.forall₂_cons_left_iff.mp two
    rw [head.unique head', ih tail']

/-- What comes of labels does not depend on their order. -/
theorem placed_perm (perm : labels.Perm labels') (one : List.Forall₂ (Placed placing) labels kept)
    (two : List.Forall₂ (Placed placing) labels' kept') : kept.Perm kept' := by
  obtain ⟨middle, each, back⟩ := List.perm_comp_forall₂ perm two
  rw [placed_unique one each]
  exact back

theorem get?_seed {seed n : Int} {name : String} (known : Values.get? [("seed", seed)] name = some n) :
    name = "seed" ∧ n = seed := by
  rw [Values.get?, List.lookup_cons] at known
  split at known
  · rename_i same
    exact ⟨beq_iff_eq.mp same, (Option.some.inj known).symm⟩
  · cases known

theorem decimal_seed {seed : Int} {name put : List Char}
    (known : Values.decimal [("seed", seed)] name = some put) :
    put = (toString seed).toList := by
  obtain ⟨n, found, rfl⟩ := Option.map_eq_some_iff.mp known
  rw [(get?_seed found).2]

/-- A label that does not refer to the seed is stored as it is. -/
theorem placed_unmentioned (seeded : Seeded placing)
    (plain : ∀ label ∈ labels, ¬ Values.Mentions "seed" label)
    (each : List.Forall₂ (Placed placing) labels kept) : kept = labels := by
  induction each with
  | nil => rfl
  | @cons text filled _ _ head _ ih =>
    rw [List.forall_mem_cons] at plain
    rw [ih plain.2]
    congr 1
    cases placing with
    | none => exact head
    | some allocated =>
      obtain ⟨seed, rfl⟩ := seeded
      have absent : ∀ name, ¬ variableName.Mentions name text.toList := by
        intro name mentions
        obtain ⟨n, known⟩ := Values.exists_fills_iff.mp ⟨_, head⟩ (String.ofList name)
          (by simpa [Values.Mentions] using mentions)
        have chars := congrArg String.toList (get?_seed known).1
        rw [String.toList_ofList] at chars
        rw [chars] at mentions
        exact plain.1 mentions
      have own := (fills_self_iff (@Values.decimal_plain [("seed", seed)])).mpr absent
      exact String.toList_inj.mp (Fills.unique variableName_closes head own)

/-- What one placing puts in weighs more wherever the label refers to the seed. -/
def Heavier (placing placing' : Option Values) : Prop :=
  ∃ weight : String → Nat, ∀ text kept kept', Placed placing text kept → Placed placing' text kept' →
    weight kept ≤ weight kept' ∧ (Values.Mentions "seed" text → weight kept < weight kept')

/-- A seed in place has fewer dollar signs than the reference. -/
theorem heavier_none (allocated : Values) : Heavier (some allocated) none := by
  refine ⟨fun text => text.toList.count '$', fun text kept kept' put same => ?_⟩
  have counted := Fills.count (Values.decimal_plain) put
  rw [show kept' = text from same]
  exact ⟨counted.1, counted.2 "seed".toList⟩

theorem heavier_seeds {seed seed' : Int}
    (less : weight (toString seed).toList < weight (toString seed').toList) :
    Heavier (some [("seed", seed)]) (some [("seed", seed')]) := by
  refine ⟨fun text => weight text.toList, fun text kept kept' put put' => ?_⟩
  have weighed := Fills.weighs variableName_closes (fun name one two known known' => by
    rw [decimal_seed known, decimal_seed known']
    exact less) put put'
  exact ⟨weighed.1, weighed.2 "seed".toList⟩

theorem heavier_or (seeded : Seeded placing) (seeded' : Seeded placing') (apart : placing ≠ placing') :
    Heavier placing placing' ∨ Heavier placing' placing := by
  cases placing with
  | none =>
    cases placing' with
    | none => exact absurd rfl apart
    | some allocated => exact .inr (heavier_none allocated)
  | some allocated =>
    cases placing' with
    | none => exact .inl (heavier_none allocated)
    | some allocated' =>
      obtain ⟨seed, rfl⟩ := seeded
      obtain ⟨seed', rfl⟩ := seeded'
      rcases Nat.lt_trichotomy (weight (toString seed).toList)
        (weight (toString seed').toList) with less | same | more
      · exact .inl (heavier_seeds less)
      · have digits := String.toList_inj.mp (weight_injective same)
        rw [Int.toString_eq_repr, Int.toString_eq_repr, Int.repr_inj] at digits
        exact absurd (by rw [digits]) apart
      · exact .inr (heavier_seeds more)

theorem heavier_unmentioned (heavier : Heavier placing placing')
    (one : List.Forall₂ (Placed placing) labels kept)
    (two : List.Forall₂ (Placed placing') labels kept') (perm : kept.Perm kept') :
    ∀ label ∈ labels, ¬ Values.Mentions "seed" label := by
  obtain ⟨weight, weighs⟩ := heavier
  have each : List.Forall₂ (fun a b => weight a ≤ weight b) kept kept' := by
    clear perm
    induction one generalizing kept' with
    | nil =>
      obtain rfl := List.forall₂_nil_left_iff.mp two
      exact .nil
    | cons head _ ih =>
      obtain ⟨other, rest, head', tail', rfl⟩ := List.forall₂_cons_left_iff.mp two
      exact .cons (weighs _ _ _ head head').1 (ih tail')
  have equal := Related.weights weight each perm
  clear each perm
  induction one generalizing kept' with
  | nil => simp
  | cons head _ ih =>
    obtain ⟨other, rest, head', tail', rfl⟩ := List.forall₂_cons_left_iff.mp two
    rw [List.forall_mem_cons]
    refine ⟨fun mentions => ?_, ih tail' (List.forall₂_cons.mp equal).2⟩
    exact absurd (List.forall₂_cons.mp equal).1 (Nat.ne_of_lt ((weighs _ _ _ head head').2 mentions))

/-- Labels that are the same up to order stay so exactly when the seeds are the same or do not
matter. -/
theorem perm_iff (seeded : Seeded placing) (seeded' : Seeded placing') (perm : labels.Perm labels')
    (one : List.Forall₂ (Placed placing) (labels.map strip) kept)
    (two : List.Forall₂ (Placed placing') (labels'.map strip) kept') :
    kept.Perm kept' ↔ placing = placing' ∨ ∀ label ∈ labels, ¬ Values.Mentions "seed" label := by
  have stripped : labels.Perm labels' → (labels.map strip).Perm (labels'.map strip) :=
    List.Perm.map strip
  constructor
  · intro stored
    by_cases same : placing = placing'
    · exact .inl same
    · refine .inr (fun label member => ?_)
      obtain ⟨middle, each, back⟩ := List.perm_comp_forall₂ (stripped perm) two
      have unmentioned : ∀ label ∈ labels.map strip, ¬ Values.Mentions "seed" label := by
        rcases heavier_or seeded seeded' same with heavier | heavier
        · exact heavier_unmentioned heavier one each (stored.trans back.symm)
        · exact heavier_unmentioned heavier each one (back.trans stored.symm)
      exact fun mentions => unmentioned _ (List.mem_map_of_mem member) (mentions_strip.mpr mentions)
  · rintro (rfl | plain)
    · exact placed_perm (stripped perm) one two
    · have plain' : ∀ label ∈ labels.map strip, ¬ Values.Mentions "seed" label := by
        intro label member mentions
        obtain ⟨given, inside, rfl⟩ := List.mem_map.mp member
        exact plain given inside (mentions_strip.mp mentions)
      rw [placed_unmentioned seeded plain' one, placed_unmentioned seeded' (fun label member =>
        plain' label ((stripped perm).mem_iff.mpr member)) two]
      exact stripped perm

end Seeds

/-! ## Stored runs -/

namespace Verification
open Json

/-- The labels the key of a run is made of. -/
def hashedLabels (values : Object) (caseName : String) (index : Nat) : Option (List String) := do
  let automatic ← automaticSeed values
  let seed ← seedValue values automatic index
  resolvedLabels values caseName (dynamic caseName automatic seed)

/-- One run of a case with the stored task: the values of the configuration with the inputs, the
integers the store allocates, and what the registry stamps on the draft. -/
structure Submission where
  listing : String → List String
  values : Object
  caseName : String
  index : Nat
  stamp : PluginStamp
  allocated : Values
  task : TaskCreate

namespace Submission
variable (machine : Machine) (digest : Digest) (stopStrategy : Json → Option StopStrategy)
  (submission : Submission)

def route : Route := .plugin ((get? submission.values "source").getD .null) submission.stamp []

/-- The task comes from a selected run, with an integer for every deferred value. -/
structure Committed : Prop where
  selected : ∃ runs, selections submission.listing submission.values = some runs ∧
    (submission.caseName, submission.index) ∈ runs
  stored : ∃ arguments,
    runArguments machine digest submission.values submission.caseName submission.index =
      some arguments ∧
    submission.allocated.map Prod.fst = (submission.route.deferred arguments).map Prod.fst ∧
    submission.route.commit machine stopStrategy arguments submission.allocated = some submission.task

/-- The automatic seed, if that is what the run has. -/
def placing : Option Values :=
  if automaticSeed submission.values = some true then some submission.allocated else none

end Submission

section Keys
variable {machine : Machine} {digest : Digest} {stopStrategy : Json → Option StopStrategy}
  {one two : Submission}
  {values : Object} {caseName : String} {index : Nat} {arguments : TaskArguments}
  {labels labels' : List String}

/-- What the arguments of a run have of the labels, the derived key and the seed. -/
structure Argued (digest : Digest) (values : Object) (caseName : String) (index : Nat)
    (arguments : TaskArguments) : Prop where
  labels : hashedLabels values caseName index = some arguments.labels
  key : derivedKey digest caseName arguments.labels ∈ arguments.mutexKeys
  deferred : arguments.deferredValues = some (if automaticSeed values = some true then seedTable
    else .empty)

theorem argued (done : runArguments machine digest values caseName index = some arguments) :
    Argued digest values caseName index arguments := by
  obtain ⟨template, _, done⟩ := Option.bind_eq_some_iff.mp done
  obtain ⟨directory, _, done⟩ := Option.bind_eq_some_iff.mp done
  rw [Option.ite_none_left_eq_some] at done
  obtain ⟨workingDirectory, _, done⟩ := Option.bind_eq_some_iff.mp done.2
  obtain ⟨automatic, isAutomatic, done⟩ := Option.bind_eq_some_iff.mp done
  obtain ⟨seed, isSeed, done⟩ := Option.bind_eq_some_iff.mp done
  obtain ⟨labels, resolved, done⟩ := Option.bind_eq_some_iff.mp done
  obtain ⟨mutexKeys, _, done⟩ := Option.bind_eq_some_iff.mp done
  obtain ⟨command, _, done⟩ := Option.bind_eq_some_iff.mp done
  obtain ⟨shell, _, done⟩ := Option.bind_eq_some_iff.mp done
  obtain ⟨compileLogs, _, done⟩ := Option.bind_eq_some_iff.mp done
  obtain ⟨runLogs, _, done⟩ := Option.bind_eq_some_iff.mp done
  obtain ⟨customTexts, _, done⟩ := Option.bind_eq_some_iff.mp done
  cases done
  refine ⟨?_, ?_, ?_⟩
  · rw [hashedLabels, isAutomatic, Option.bind_eq_bind, Option.bind_some, isSeed,
      Option.bind_eq_bind, Option.bind_some]
    exact resolved
  · exact List.mem_eraseDups.mpr (List.mem_append_right _ (List.mem_singleton_self _))
  · rw [isAutomatic]
    cases automatic <;> rfl

/-- What a stored run has of its labels and its derived key. -/
structure Stored (digest : Digest) (submission : Submission) (labels : List String) : Prop where
  seeded : Seeded submission.placing
  kept : List.Forall₂ (Placed submission.placing) (labels.map strip) submission.task.labels
  distinct : submission.task.labels.Nodup
  key : derivedKey digest submission.caseName labels ∈ submission.task.mutexKeys

theorem stored (committed : one.Committed machine digest stopStrategy)
    (hashed : hashedLabels one.values one.caseName one.index = some labels) :
    Stored digest one labels := by
  obtain ⟨arguments, isArguments, names, done⟩ := committed.stored
  have argued := argued isArguments
  have same := argued.labels
  rw [hashed] at same
  obtain rfl := Option.some.inj same
  have keeps := commit_kept done
  have placing : one.route.placing arguments one.allocated = one.placing := by
    rw [Route.placing, Submission.placing, Submission.route, Route.deferred, argued.deferred]
    split <;> split <;> simp_all [seedTable, DeferredTable.empty, get?]
  have keeps : KeptNames arguments one.placing one.task := placing ▸ keeps
  refine ⟨?_, keeps.labels, keeps.distinct, ?_⟩
  · unfold Submission.placing
    split
    · rename_i automatic
      rw [Submission.route, Route.deferred, argued.deferred, if_pos automatic] at names
      have single : one.allocated.map Prod.fst = ["seed"] := names
      obtain ⟨entry, isEntry, named⟩ := List.map_eq_singleton_iff.mp single
      exact ⟨entry.2, by rw [isEntry, ← named]⟩
    · trivial
  · have member := List.mem_map_of_mem (f := strip) argued.key
    rw [derivedKey_strip] at member
    obtain ⟨kept, inside, put⟩ := Calls.forall₂_left keeps.mutexKeys _ member
    have plain : '$' ∉ (derivedKey digest one.caseName arguments.labels).toList :=
      fun dollar => (derivedKey_chars digest _ _ _ dollar).2 rfl
    rwa [(placed_plain plain).mp put] at inside

/-- The derived keys of two stored runs compare the case and the set of labels exactly when the
labels, before the blanks go and the seeds come, tell the runs apart as they do later. -/
theorem derived_keys_identify_iff (first : one.Committed machine digest stopStrategy)
    (second : two.Committed machine digest stopStrategy)
    (hashed : hashedLabels one.values one.caseName one.index = some labels)
    (hashed' : hashedLabels two.values two.caseName two.index = some labels')
    (injective : digest.run (queueIdentity one.caseName labels) = digest.run
      (queueIdentity two.caseName labels') →
      queueIdentity one.caseName labels = queueIdentity two.caseName labels') :
    derivedKey digest one.caseName labels ∈ one.task.mutexKeys ∧
    derivedKey digest two.caseName labels' ∈ two.task.mutexKeys ∧
    ((derivedKey digest one.caseName labels = derivedKey digest two.caseName labels' ↔
        one.caseName = two.caseName ∧ ∀ label, label ∈ one.task.labels ↔ label ∈ two.task.labels) ↔
      (one.caseName = two.caseName → Telling one.placing two.placing labels labels')) := by
  have left := stored first hashed
  have right := stored second hashed'
  refine ⟨left.key, right.key, ?_⟩
  have sets : (∀ label, label ∈ one.task.labels ↔ label ∈ two.task.labels) ↔
    one.task.labels.Perm two.task.labels :=
    (List.perm_ext_iff_of_nodup left.distinct right.distinct).symm
  have alike : ComeAlike one.placing two.placing labels labels' ↔
    one.task.labels.Perm two.task.labels := by
    constructor
    · rintro ⟨kept, kept', put, put', perm⟩
      rwa [placed_unique put left.kept, placed_unique put' right.kept] at perm
    · exact fun perm => ⟨_, _, left.kept, right.kept, perm⟩
  have seeds : labels.Perm labels' → (one.task.labels.Perm two.task.labels ↔
      one.placing = two.placing ∨ ∀ label ∈ labels, ¬ Values.Mentions "seed" label) :=
    fun perm => perm_iff left.seeded right.seeded perm left.kept right.kept
  rw [derivedKey_inj injective, sets]
  constructor
  · intro same here
    refine ⟨fun perm => (seeds perm).mp (same.mp ⟨here, perm⟩).2, fun close => ?_⟩
    exact (same.mpr ⟨here, alike.mp close⟩).2
  · intro telling
    constructor
    · rintro ⟨here, perm⟩
      exact ⟨here, (seeds perm).mpr ((telling here).seeds perm)⟩
    · rintro ⟨here, perm⟩
      exact ⟨here, (telling here).texts (alike.mpr perm)⟩

end Keys

/-! ## Two runs -/

theorem hexadecimal_of_all {text : String}
    (all : text.toList.all (fun c => c ∈ "0123456789abcdef".toList) = true) :
    ∀ c ∈ text.toList, c ∈ "0123456789abcdef".toList :=
  fun c member => of_decide_eq_true (List.all_eq_true.mp all c member)

/-- The digests of the two cases of `nightly`. -/
def nightlyDigest : Digest where
  run text :=
    if text = queueIdentity "case-a" ["nightly", "gpu"] then "568ee116d84095f51daeceb2"
    else if text = queueIdentity "case-b" ["nightly", "gpu"] then "faa64b245d1e150d7d525cba"
    else "542a48bcbb9c47836aa55fb3"
  length text := by
    split
    · rfl
    · split <;> rfl
  hexadecimal text := by
    apply hexadecimal_of_all
    split
    · decide
    · split <;> decide

/-- A run of one case with these labels and an automatic seed. -/
def nightly (caseName : String) (labels : List String) : Object :=
  [("command", argv ["true"]), ("working_directory", .str "/work"),
    ("case_names", argv ["case-a", "case-b"]),
    ("labels", argv labels), ("cases", argv [caseName])]

def nightlyStamp : PluginStamp := ⟨"verification", [], none⟩

def nightlyTask (caseName : String) (labels : List String) (seed : Int) : Option TaskCreate := do
  let arguments ← runArguments .plain nightlyDigest (nightly caseName labels) caseName 0
  (Route.plugin .null nightlyStamp []).commit .plain (fun _ => none) arguments [("seed", seed)]

theorem nightly_committed {caseName : String} {labels kept : List String} {seed : Int}
    (selected : (selections (fun _ => []) (nightly caseName labels)).any
      (fun runs => (caseName, 0) ∈ runs) = true)
    (stored : (nightlyTask caseName labels seed).any (fun task => task.labels = kept) = true) :
    ∃ task, task.labels = kept ∧ Submission.Committed .plain nightlyDigest (fun _ => none)
      ⟨fun _ => [], nightly caseName labels, caseName, 0, nightlyStamp, [("seed", seed)], task⟩ := by
  obtain ⟨runs, isRuns, chosen⟩ := (Option.any_eq_true _ _).mp selected
  obtain ⟨task, isTask, labelled⟩ := (Option.any_eq_true _ _).mp stored
  obtain ⟨arguments, isArguments, commit⟩ := Option.bind_eq_some_iff.mp isTask
  refine ⟨task, of_decide_eq_true labelled, ⟨runs, isRuns, of_decide_eq_true chosen⟩, arguments,
    isArguments, ?_,
    commit⟩
  rw [Submission.route, Route.deferred, (argued isArguments).deferred]
  rfl

theorem derived_keys_identify_nightly : ∃ one two : Submission,
    one.Committed .plain nightlyDigest (fun _ => none) ∧
      two.Committed .plain nightlyDigest (fun _ => none) ∧
    one.caseName = "case-a" ∧ two.caseName = "case-b" ∧
    derivedKey nightlyDigest "case-a" ["nightly", "gpu"] ∈ one.task.mutexKeys ∧
    derivedKey nightlyDigest "case-b" ["nightly", "gpu"] ∈ two.task.mutexKeys ∧
    derivedKey nightlyDigest "case-a" ["nightly", "gpu"] ≠ derivedKey nightlyDigest "case-b"
    ["nightly", "gpu"] := by
  obtain ⟨task, _, first⟩ :=
    @nightly_committed "case-a" ["nightly", "gpu"] ["nightly", "gpu"] 7 (by decide +kernel)
      (by decide +kernel)
  obtain ⟨task', _, second⟩ :=
    @nightly_committed "case-b" ["nightly", "gpu"] ["nightly", "gpu"] 8 (by decide +kernel)
      (by decide +kernel)
  have hashed : hashedLabels (nightly "case-a" ["nightly", "gpu"]) "case-a" 0 =
    some ["nightly", "gpu"] := by
    decide +kernel
  have hashed' : hashedLabels (nightly "case-b" ["nightly", "gpu"]) "case-b" 0 =
    some ["nightly", "gpu"] := by
    decide +kernel
  have apart : "case-a" ≠ "case-b" := by decide
  have injective : nightlyDigest.run (queueIdentity "case-a" ["nightly", "gpu"]) =
        nightlyDigest.run (queueIdentity "case-b" ["nightly", "gpu"]) →
      queueIdentity "case-a" ["nightly", "gpu"] = queueIdentity "case-b" ["nightly", "gpu"] := by
        decide +kernel
  have keys := derived_keys_identify_iff first second hashed hashed' injective
  refine ⟨_, _, first, second, rfl, rfl, keys.1, keys.2.1, fun same => ?_⟩
  exact apart ((keys.2.2.mpr (fun same => absurd same apart)).mp same).1

/-- Two automatic seeds in a label give two sets of labels and one key. -/
theorem automatic_seeds_share_key : ∃ (one two : Submission) (labels : List String),
    one.Committed .plain nightlyDigest (fun _ => none) ∧
      two.Committed .plain nightlyDigest (fun _ => none) ∧
    hashedLabels one.values one.caseName one.index = some labels ∧
    hashedLabels two.values two.caseName two.index = some labels ∧
    derivedKey nightlyDigest one.caseName labels = derivedKey nightlyDigest two.caseName labels ∧
    ¬ ∀ label, label ∈ one.task.labels ↔ label ∈ two.task.labels := by
  obtain ⟨task, labelled, first⟩ :=
    @nightly_committed "case-a" [referenceTo "seed" ++ "-run"] ["7-run"] 7 (by decide +kernel)
      (by decide +kernel)
  obtain ⟨task', labelled', second⟩ :=
    @nightly_committed "case-a" [referenceTo "seed" ++ "-run"] ["8-run"] 8 (by decide +kernel)
      (by decide +kernel)
  have hashed : hashedLabels (nightly "case-a" [referenceTo "seed" ++ "-run"]) "case-a" 0 =
      some [referenceTo "seed" ++ "-run"] := by decide +kernel
  refine ⟨_, _, _, first, second, hashed, hashed, rfl, fun same => ?_⟩
  have member := (same "7-run").mp (by rw [labelled]; exact List.mem_singleton_self _)
  rw [labelled'] at member
  exact absurd member (by decide)

end Verification

end LocalFlow
