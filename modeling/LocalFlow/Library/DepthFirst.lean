import Mathlib.Logic.Relation
import Mathlib.Data.List.Basic
import Mathlib.Tactic.Common

/-! A recursive depth-first search that a faulty edge, a faulty node or too many nested calls end at
once, and the machine with an agenda that does the same one edge at a time. What holds of every
state of the machine holds of the search. -/
namespace DepthFirst

/-- The node that an edge leads to and the edges out of a node. Either may fail, and so may a call
that is nested too deep. -/
structure Graph (ρ κ ε : Type*) where
  target : ρ → Except ε κ
  edges : κ → Except ε (List ρ)
  overflow : ε

variable {ρ κ ε : Type*} [DecidableEq κ] (g : Graph ρ κ ε) (root : κ)

/-- The edges of one node, in order. The result is the nodes that were met and the fault that ended
the search. -/
def follow (descend : List ρ → List κ → List κ × Option ε) : List ρ → List κ → List κ × Option ε
  | [], met => (met, none)
  | edge :: rest, met =>
    match g.target edge with
    | .error e => (met, some e)
    | .ok node =>
      if node ∈ met then follow descend rest met
      else if node = root then follow descend rest (node :: met)
      else
        match g.edges node with
        | .error e => (node :: met, some e)
        | .ok edges =>
          match descend edges (node :: met) with
          | (met, some e) => (met, some e)
          | (met, none) => follow descend rest met

/-- A call that may nest `limit` more calls. -/
def search : Nat → List ρ → List κ → List κ × Option ε
  | 0 => follow g root (fun _ met => (met, some g.overflow))
  | limit + 1 => follow g root (search limit)

/-! ## The machine -/

/-- The nodes that were met and the edges still to follow, each with the calls that may be nested
from it. -/
structure State (ρ κ : Type*) where
  met : List κ
  agenda : List (Nat × ρ)

inductive Next (ρ κ ε : Type*) where
  | more (state : State ρ κ)
  | stop (met : List κ) (fault : Option ε)

def labelled (limit : Nat) (edges : List ρ) : List (Nat × ρ) := edges.map (fun edge => (limit, edge))

def next : State ρ κ → Next ρ κ ε
  | ⟨met, []⟩ => .stop met none
  | ⟨met, (limit, edge) :: rest⟩ =>
    match g.target edge with
    | .error e => .stop met (some e)
    | .ok node =>
      if node ∈ met then .more ⟨met, rest⟩
      else if node = root then .more ⟨node :: met, rest⟩
      else
        match g.edges node with
        | .error e => .stop (node :: met) (some e)
        | .ok edges =>
          match limit with
          | 0 => .stop (node :: met) (some g.overflow)
          | limit + 1 => .more ⟨node :: met, labelled limit edges ++ rest⟩

def Reaches : State ρ κ → State ρ κ → Prop := Relation.ReflTransGen (fun s t => next g root s = .more t)

/-- The machine stops with the nodes that were met and a fault. -/
def HaltsWith (s : State ρ κ) (result : List κ × Option ε) : Prop :=
  ∃ t, Reaches g root s t ∧ next g root t = .stop result.1 result.2

/-- A call that is made at a state: it comes back with its edges followed, or ends the machine. -/
def Returns (s : State ρ κ) (rest : List (Nat × ρ)) : List κ × Option ε → Prop
  | (met, none) => Reaches g root s ⟨met, rest⟩
  | (met, some e) => HaltsWith g root s (met, some e)

section Machine
variable {g root} {s t u : State ρ κ} {result other : List κ × Option ε} {rest : List (Nat × ρ)}

theorem HaltsWith.earlier (reaches : Reaches g root s t) (halts : HaltsWith g root t result) :
    HaltsWith g root s result := by
  obtain ⟨u, later, stops⟩ := halts
  exact ⟨u, reaches.trans later, stops⟩

theorem Returns.earlier (reaches : Reaches g root s t) (returns : Returns g root t rest result) :
    Returns g root s rest result := by
  obtain ⟨met, fault⟩ := result
  cases fault with
  | none => exact reaches.trans returns
  | some e => exact HaltsWith.earlier reaches returns

theorem Returns.next (more : next g root s = .more t) (returns : Returns g root t rest result) :
    Returns g root s rest result :=
  returns.earlier (.single more)

/-- The machine stops in one way only. -/
theorem HaltsWith.later (halts : HaltsWith g root s result) (reaches : Reaches g root s t) :
    HaltsWith g root t result := by
  induction reaches with
  | refl => exact halts
  | tail _ more ih =>
    obtain ⟨u, later, stops⟩ := ih
    obtain same | ⟨v, first, after⟩ := later.cases_head
    · rw [same, stops] at more
      cases more
    · rw [more] at first
      cases first
      exact ⟨u, after, stops⟩

theorem HaltsWith.unique (first : HaltsWith g root s result) (second : HaltsWith g root s other) :
    result = other := by
  obtain ⟨t, reaches, stops⟩ := first
  obtain ⟨u, later, halted⟩ := second.later reaches
  obtain same | ⟨v, more, _⟩ := later.cases_head
  · rw [← same, stops] at halted
    injection halted with met fault
    exact Prod.ext met fault
  · rw [stops] at more
    cases more

/-- Machines that take the same steps stop in the same way. -/
theorem HaltsWith.congr {g' : Graph ρ κ ε}
    (same : ∀ t, Reaches g root s t → next g' root t = next g root t)
    (halts : HaltsWith g root s result) : HaltsWith g' root s result := by
  obtain ⟨t, reaches, stops⟩ := halts
  have follows : Reaches g' root s t := by
    clear stops
    induction reaches with
    | refl => exact .refl
    | tail before more ih => exact ih.tail ((same _ before).trans more)
  exact ⟨t, follows, (same t reaches).trans stops⟩

/-- What the start has and each step keeps holds of every state. -/
theorem Reaches.invariant {P : State ρ κ → Prop} (reaches : Reaches g root s t) (start : P s)
    (keeps : ∀ u v, Reaches g root s u → P u → next g root u = .more v → P v) : P t := by
  induction reaches with
  | refl => exact start
  | tail before more ih => exact keeps _ _ before ih more

end Machine

section Search
variable {g root} {limit : Nat} {edges : List ρ} {met : List κ} {rest : List (Nat × ρ)}

theorem follow_returns {descend : List ρ → List κ → List κ × Option ε}
    (descends : ∀ node edge out met rest, g.target edge = .ok node → node ∉ met → node ≠ root →
      g.edges node = .ok out →
      Returns g root ⟨met, (limit, edge) :: rest⟩ rest (descend out (node :: met))) :
    Returns g root ⟨met, labelled limit edges ++ rest⟩ rest (follow g root descend edges met) := by
  induction edges generalizing met with
  | nil => exact .refl
  | cons edge edges ih =>
    change Returns g root ⟨met, (limit, edge) :: (labelled limit edges ++ rest)⟩ rest _
    unfold follow
    split
    · rename_i e fault
      refine ⟨_, .refl, ?_⟩
      simp only [next, fault]
    · rename_i node target
      split
      · rename_i seen
        refine Returns.next ?_ ih
        simp only [next, target, if_pos seen]
      · rename_i unseen
        split
        · rename_i isRoot
          refine Returns.next ?_ ih
          simp only [next, target, if_neg unseen, if_pos isRoot]
        · rename_i inner
          split
          · rename_i e fault
            refine ⟨_, .refl, ?_⟩
            simp only [next, target, if_neg unseen, if_neg inner, fault]
          · rename_i out opened
            have returns := descends node edge out met
              (labelled limit edges ++ rest) target unseen inner opened
            split <;> rename_i descended <;> rw [descended] at returns
            · exact returns
            · exact ih.earlier returns

/-- The search is a run of the machine. -/
theorem search_returns (limit : Nat) (edges : List ρ) (met : List κ) (rest : List (Nat × ρ)) :
    Returns g root ⟨met, labelled limit edges ++ rest⟩ rest (search g root limit edges met) := by
  induction limit generalizing edges met rest with
  | zero =>
    refine follow_returns (fun node edge out met rest target unseen inner opened => ?_)
    refine ⟨_, .refl, ?_⟩
    simp only [next, target, if_neg unseen, if_neg inner, opened]
  | succ limit ih =>
    refine follow_returns (fun node edge out met rest target unseen inner opened => ?_)
    refine Returns.next ?_ (ih out (node :: met) rest)
    simp only [next, target, if_neg unseen, if_neg inner, opened]

/-- The start of a search. -/
def start (limit : Nat) (edges : List ρ) : State ρ κ := ⟨[], labelled limit edges⟩

theorem search_halts (g : Graph ρ κ ε) (root : κ) (limit : Nat) (edges : List ρ) :
    HaltsWith g root (start limit edges) (search g root limit edges []) := by
  have returns := @search_returns _ _ _ _ g root limit edges [] []
  rw [List.append_nil] at returns
  cases result : search g root limit edges [] with
  | mk met fault =>
    rw [result] at returns
    cases fault with
    | none => exact ⟨_, returns, rfl⟩
    | some e => exact returns

theorem search_passes {limit : Nat} {edges : List ρ} {met : List κ} :
    Reaches g root (start limit edges) ⟨met, []⟩ ↔ search g root limit edges [] = (met, none) := by
  constructor
  · intro reaches
    have halts : HaltsWith g root (start limit edges) (met, none) := ⟨_, reaches, rfl⟩
    exact (search_halts g root limit edges).unique halts
  · intro passes
    have returns := @search_returns _ _ _ _ g root limit edges [] []
    rw [List.append_nil, passes] at returns
    exact returns

/-- Graphs on which the machine takes the same steps are searched with the same result. -/
theorem search_congr {g' : Graph ρ κ ε}
    (same : ∀ t, Reaches g root (start limit edges) t → next g' root t = next g root t) :
    search g' root limit edges [] = search g root limit edges [] :=
  (search_halts g' root limit edges).unique ((search_halts g root limit edges).congr same)

end Search

/-! ## Steps -/

section Steps
variable {g root} {edges : List ρ} {met : List κ} {fault : Option ε} {s t : State ρ κ}

theorem mem_labelled {limit : Nat} {edge : ρ} (member : edge ∈ edges) :
    (limit, edge) ∈ labelled limit edges :=
  List.mem_map.mpr ⟨edge, member, rfl⟩

/-- The step that takes an edge from the agenda. -/
inductive Traverses (g : Graph ρ κ ε) (root : κ) : State ρ κ → State ρ κ → Prop where
  | seen (limit : Nat) (edge : ρ) (node : κ) (met : List κ) (rest : List (Nat × ρ))
      (target : g.target edge = .ok node)
      (seen : node ∈ met) : Traverses g root ⟨met, (limit, edge) :: rest⟩ ⟨met, rest⟩
  | root (limit : Nat) (edge : ρ) (met : List κ) (rest : List (Nat × ρ))
      (target : g.target edge = .ok root) :
      Traverses g root ⟨met, (limit, edge) :: rest⟩ ⟨root :: met, rest⟩
  | opened (limit : Nat) (edge : ρ) (node : κ) (met : List κ) (rest : List (Nat × ρ)) (out : List ρ)
      (target : g.target edge = .ok node) (inner : node ≠ root) (opened : g.edges node = .ok out) :
      Traverses g root ⟨met, (limit + 1, edge) :: rest⟩ ⟨node :: met, labelled limit out ++ rest⟩

theorem next_takes (more : next g root s = .more t) : Traverses g root s t := by
  unfold next at more
  split at more
  · cases more
  · split at more
    · cases more
    · rename_i target
      split at more
      · rename_i seen
        cases more
        exact .seen _ _ _ _ _ target seen
      · split at more
        · rename_i isRoot
          cases more
          subst isRoot
          exact .root _ _ _ _ target
        · rename_i inner
          split at more
          · cases more
          · rename_i opened
            split at more
            · cases more
            · cases more
              exact .opened _ _ _ _ _ _ target inner opened

/-- The machine stops when its agenda is empty, at a faulty edge, or at a node it has just met. -/
inductive StopsWith (g : Graph ρ κ ε) (root : κ) : State ρ κ → List κ → Option ε → Prop where
  | done (met : List κ) : StopsWith g root ⟨met, []⟩ met none
  | edge (limit : Nat) (edge : ρ) (met : List κ) (rest : List (Nat × ρ)) (e : ε)
      (faulty : g.target edge = .error e) :
      StopsWith g root ⟨met, (limit, edge) :: rest⟩ met (some e)
  | node (limit : Nat) (edge : ρ) (node : κ) (met : List κ) (rest : List (Nat × ρ)) (e : ε)
      (target : g.target edge = .ok node) (unseen : node ∉ met) (inner : node ≠ root)
      (why : g.edges node = .error e ∨ limit = 0 ∧ e = g.overflow) :
      StopsWith g root ⟨met, (limit, edge) :: rest⟩ (node :: met) (some e)

theorem next_stops (stops : next g root s = .stop met fault) : StopsWith g root s met fault := by
  unfold next at stops
  split at stops
  · cases stops
    exact .done _
  · split at stops
    · rename_i faulty
      cases stops
      exact .edge _ _ _ _ _ faulty
    · rename_i target
      split at stops
      · cases stops
      · rename_i unseen
        split at stops
        · cases stops
        · rename_i inner
          split at stops
          · rename_i faulty
            cases stops
            exact .node _ _ _ _ _ _ target unseen inner (.inl faulty)
          · split at stops
            · cases stops
              exact .node _ _ _ _ _ _ target unseen inner (.inr ⟨rfl, rfl⟩)
            · cases stops

/-- Nodes stay met. -/
theorem Reaches.met_subset (reaches : Reaches g root s t) : s.met ⊆ t.met := by
  induction reaches with
  | refl => exact List.Subset.refl _
  | tail _ more ih =>
    refine List.Subset.trans ih ?_
    cases next_takes more with
    | seen => exact List.Subset.refl _
    | root => exact List.subset_cons_self _ _
    | opened => exact List.subset_cons_self _ _

theorem HaltsWith.met_subset {result : List κ × Option ε} (halts : HaltsWith g root s result) :
    s.met ⊆ result.1 := by
  obtain ⟨t, reaches, stops⟩ := halts
  refine List.Subset.trans reaches.met_subset ?_
  obtain ⟨met, fault⟩ := result
  cases next_stops stops with
  | done => exact List.Subset.refl _
  | edge => exact List.Subset.refl _
  | node => exact List.subset_cons_self _ _

/-- A machine that stops without a fault finds none at the edge it takes next. -/
theorem HaltsWith.head_fine {limit : Nat} {edge : ρ} {rest : List (Nat × ρ)} {all : List κ}
    (halts : HaltsWith g root ⟨met, (limit, edge) :: rest⟩ (all, none)) :
    ∃ node, g.target edge = .ok node ∧
    (node ∉ met → node ≠ root → limit ≠ 0 ∧ ∃ out, g.edges node = .ok out) := by
  obtain ⟨t, reaches, stops⟩ := halts
  obtain same | ⟨u, more, _⟩ := reaches.cases_head
  · rw [← same] at stops
    cases next_stops stops
  · cases next_takes more with
    | seen _ _ node _ _ target seen => exact ⟨node, target, fun unseen => absurd seen unseen⟩
    | root _ _ _ _ target => exact ⟨root, target, fun _ inner => absurd rfl inner⟩
    | opened limit _ node _ _ out target _ opened =>
      exact ⟨node, target, fun _ _ => ⟨Nat.succ_ne_zero limit, out, opened⟩⟩

/-- The edge a state takes next leads to no node outside `P`. -/
def Leads (g : Graph ρ κ ε) (P : κ → Prop) (s : State ρ κ) : Prop :=
  ∀ limit edge rest node, s.agenda = (limit, edge) :: rest → g.target edge = .ok node → P node

/-- Where every edge that is taken leads into `P`, every node that is met is in `P`. -/
theorem Reaches.met_all {P : κ → Prop} (reaches : Reaches g root s t) (initial : ∀ node ∈ s.met, P node)
    (leads : ∀ u, Reaches g root s u → Leads g P u) : ∀ node ∈ t.met, P node := by
  refine reaches.invariant (P := fun u => ∀ node ∈ u.met, P node) initial
    (fun u v before all more => ?_)
  have head := leads u before
  cases next_takes more with
  | seen => exact all
  | root limit edge met rest target =>
    intro node member
    obtain rfl | member := List.mem_cons.mp member
    · exact head _ _ _ _ rfl target
    · exact all node member
  | opened limit edge node met rest out target =>
    intro node member
    obtain rfl | member := List.mem_cons.mp member
    · exact head _ _ _ _ rfl target
    · exact all node member

theorem HaltsWith.met_all {P : κ → Prop} {result : List κ × Option ε}
    (halts : HaltsWith g root s result)
    (initial : ∀ node ∈ s.met, P node) (leads : ∀ u, Reaches g root s u → Leads g P u) :
    ∀ node ∈ result.1, P node := by
  obtain ⟨t, reaches, stops⟩ := halts
  have all := reaches.met_all initial leads
  have head := leads t reaches
  obtain ⟨met, fault⟩ := result
  cases next_stops stops with
  | done => exact all
  | edge => exact all
  | node limit edge found met rest e target =>
    intro node member
    obtain rfl | member := List.mem_cons.mp member
    · exact head _ _ _ _ rfl target
    · exact all node member

/-- A run of which every state but the last meets a condition. -/
def KeepsTo (g : Graph ρ κ ε) (root : κ) (P : State ρ κ → Prop) : State ρ κ → State ρ κ → Prop :=
  Relation.ReflTransGen (fun s t => P s ∧ next g root s = .more t)

/-- The node that the next edge leads to is met when the machine stops. -/
theorem HaltsWith.head_met {result : List κ × Option ε} {limit : Nat} {edge : ρ}
    {rest : List (Nat × ρ)} {node : κ}
    (halts : HaltsWith g root ⟨met, (limit, edge) :: rest⟩ result)
    (target : g.target edge = .ok node) : node ∈ result.1 := by
  obtain ⟨t, reaches, stops⟩ := halts
  obtain ⟨all, fault⟩ := result
  obtain same | ⟨u, more, later⟩ := reaches.cases_head
  · rw [← same] at stops
    cases next_stops stops with
    | edge _ _ _ _ _ faulty =>
      rw [target] at faulty
      cases faulty
    | node _ _ found _ _ _ leads =>
      rw [target] at leads
      cases leads
      exact List.mem_cons_self
  · have halts : HaltsWith g root u (all, fault) := ⟨t, later, stops⟩
    refine halts.met_subset ?_
    cases next_takes more with
    | seen _ _ found _ _ leads seen =>
      rw [target] at leads
      cases leads
      exact seen
    | root _ _ _ _ leads =>
      rw [target] at leads
      cases leads
      exact List.mem_cons_self
    | opened _ _ found _ _ _ leads =>
      rw [target] at leads
      cases leads
      exact List.mem_cons_self

/-- If a state that is reached breaks a condition, there is a first such state. -/
theorem Reaches.first {P : State ρ κ → Prop} (reaches : Reaches g root s t) (breaks : ¬ P t) :
    ∃ u, KeepsTo g root P s u ∧ ¬ P u := by
  have either : KeepsTo g root P s t ∨ ∃ u, KeepsTo g root P s u ∧ ¬ P u := by
    clear breaks
    induction reaches with
    | refl => exact .inl .refl
    | @tail u v _ more ih =>
      obtain keeps | found := ih
      · by_cases holds : P u
        · exact .inl (keeps.tail ⟨holds, more⟩)
        · exact .inr ⟨u, keeps, holds⟩
      · exact .inr found
  obtain keeps | found := either
  · exact ⟨t, keeps, breaks⟩
  · exact found

end Steps

/-! ## What a search that passes has covered -/

section Coverage
variable {g root} {limit : Nat} {edges : List ρ} {met : List κ} {s t : State ρ κ}

/-- An edge was followed to a node that was met, or is still on the agenda. -/
def CoveredEdge (g : Graph ρ κ ε) (s : State ρ κ) (edge : ρ) : Prop :=
  (∃ node ∈ s.met, g.target edge = .ok node) ∨ ∃ limit, (limit, edge) ∈ s.agenda

/-- The edges of the start and of every node that was met, the root apart, are covered. -/
structure Explored (g : Graph ρ κ ε) (root : κ) (edges : List ρ) (s : State ρ κ) : Prop where
  start : ∀ edge ∈ edges, CoveredEdge g s edge
  nodes : ∀ node ∈ s.met, node ≠ root → ∃ out, g.edges node = .ok out ∧
    ∀ edge ∈ out, CoveredEdge g s edge

omit [DecidableEq κ] in
theorem Traverses.covered (takes : Traverses g root s t) {edge : ρ}
    (covered : CoveredEdge g s edge) : CoveredEdge g t edge := by
  cases takes with
  | seen limit first node met rest target seen =>
    obtain met | ⟨limit, member⟩ := covered
    · exact .inl met
    · obtain same | member := List.mem_cons.mp member
      · cases same
        exact .inl ⟨node, seen, target⟩
      · exact .inr ⟨limit, member⟩
  | root limit first met rest target =>
    obtain ⟨node, member, leads⟩ | ⟨limit, member⟩ := covered
    · exact .inl ⟨node, List.mem_cons_of_mem _ member, leads⟩
    · obtain same | member := List.mem_cons.mp member
      · cases same
        exact .inl ⟨_, List.mem_cons_self, target⟩
      · exact .inr ⟨limit, member⟩
  | opened limit first node met rest out target _ _ =>
    obtain ⟨node, member, leads⟩ | ⟨limit, member⟩ := covered
    · exact .inl ⟨node, List.mem_cons_of_mem _ member, leads⟩
    · obtain same | member := List.mem_cons.mp member
      · cases same
        exact .inl ⟨_, List.mem_cons_self, target⟩
      · exact .inr ⟨limit, List.mem_append_right _ member⟩

omit [DecidableEq κ] in
theorem Explored.step (explored : Explored g root edges s) (takes : Traverses g root s t) :
    Explored g root edges t := by
  have kept : ∀ node ∈ s.met, node ≠ root → ∃ out, g.edges node = .ok out ∧
    ∀ edge ∈ out, CoveredEdge g t edge := by
    intro node member inner
    obtain ⟨out, opened, covered⟩ := explored.nodes node member inner
    exact ⟨out, opened, fun edge isEdge => takes.covered (covered edge isEdge)⟩
  refine ⟨fun edge member => takes.covered (explored.start edge member), ?_⟩
  cases takes with
  | seen => exact kept
  | root =>
    intro node member inner
    obtain same | member := List.mem_cons.mp member
    · exact absurd same inner
    · exact kept node member inner
  | opened limit first found met rest out target _ opened =>
    intro node member inner
    obtain rfl | member := List.mem_cons.mp member
    · exact ⟨out, opened, fun edge isEdge => .inr ⟨limit, List.mem_append_left _ (mem_labelled isEdge)⟩⟩
    · exact kept node member inner

omit [DecidableEq κ] in
theorem explored_start (limit : Nat) (edges : List ρ) : Explored g root edges (start limit edges) :=
  ⟨fun _ member => .inr ⟨limit, mem_labelled member⟩, fun _ member => nomatch member⟩

/-- A search that passes has met every node that an edge of the start, or of a node that was met,
leads to. -/
theorem search_covers (passes : search g root limit edges [] = (met, none)) :
    (∀ edge ∈ edges, ∃ node ∈ met, g.target edge = .ok node) ∧
    ∀ node ∈ met, node ≠ root → ∃ out, g.edges node = .ok out ∧ ∀ edge ∈ out, ∃ node ∈ met,
      g.target edge = .ok node := by
  obtain ⟨t, reaches, stops⟩ := search_halts g root limit edges
  rw [passes] at stops
  have explored : Explored g root edges t :=
    reaches.invariant (explored_start limit edges) (fun u v _ explored more =>
      explored.step (next_takes more))
  cases next_stops stops
  have only : ∀ edge, CoveredEdge g ⟨met, []⟩ edge → ∃ node ∈ met, g.target edge = .ok node := by
    intro edge covered
    obtain found | ⟨_, member⟩ := covered
    · exact found
    · cases member
  refine ⟨fun edge member => only edge (explored.start edge member), ?_⟩
  intro node member inner
  obtain ⟨out, opened, covered⟩ := explored.nodes node member inner
  exact ⟨out, opened, fun edge isEdge => only edge (covered edge isEdge)⟩

end Coverage

/-! ## Exactness -/

section Exactness
variable {g root} {limit n : Nat} {edge : ρ} {edges : List ρ} {met : List κ} {fault : Option ε}
  {node : κ} {s t : State ρ κ}

/-- The nodes that the edges of the start lead to, directly or through the edges out of such nodes.
The edges out of the root are those of the start. -/
inductive Attained (g : Graph ρ κ ε) (root : κ) (edges : List ρ) : κ → Prop where
  | first {edge : ρ} {node : κ} (member : edge ∈ edges)
      (target : g.target edge = .ok node) : Attained g root edges node
  | next {before : κ} {out : List ρ} {edge : ρ} {node : κ} (attained : Attained g root edges before)
      (inner : before ≠ root)
      (opened : g.edges before = .ok out) (member : edge ∈ out) (target : g.target edge = .ok node) :
      Attained g root edges node

/-- An edge of the start or of a node that is attained. -/
def Leaving (g : Graph ρ κ ε) (root : κ) (edges : List ρ) (edge : ρ) : Prop :=
  edge ∈ edges ∨ ∃ before out, Attained g root edges before ∧ before ≠ root ∧
    g.edges before = .ok out ∧ edge ∈ out

omit [DecidableEq κ] in
theorem Leaving.attains (leaving : Leaving g root edges edge) (target : g.target edge = .ok node) :
    Attained g root edges node := by
  rcases leaving with member | ⟨before, out, attained, inner, opened, member⟩
  · exact .first member target
  · exact .next attained inner opened member target

/-- Nodes each of which an edge out of the one before leads to, the last first. -/
inductive Chain (g : Graph ρ κ ε) (root : κ) (edges : List ρ) : List κ → Prop where
  | first {edge : ρ} {node : κ} (member : edge ∈ edges)
      (target : g.target edge = .ok node) : Chain g root edges [node]
  | next {before node : κ} {nodes : List κ} {out : List ρ} {edge : ρ}
      (chain : Chain g root edges (before :: nodes))
      (inner : before ≠ root) (opened : g.edges before = .ok out) (member : edge ∈ out)
        (target : g.target edge = .ok node) :
      Chain g root edges (node :: before :: nodes)

/-- A chain below the root, without repetition, of more nodes than calls can be nested. -/
def Overlong (g : Graph ρ κ ε) (root : κ) (edges : List ρ) (limit : Nat) : Prop :=
  ∃ nodes, Chain g root edges nodes ∧ (root :: nodes).Nodup ∧ limit < nodes.length

/-- The calls that are nested around an edge: its node is the last of them. -/
inductive Calls (g : Graph ρ κ ε) (root : κ) (edges : List ρ) (edge : ρ) : List κ → Prop where
  | outermost (member : edge ∈ edges) : Calls g root edges edge []
  | nested {node : κ} {nodes : List κ} {out : List ρ} (chain : Chain g root edges (node :: nodes))
      (inner : node ≠ root)
      (opened : g.edges node = .ok out) (member : edge ∈ out) : Calls g root edges edge (node :: nodes)

omit [DecidableEq κ] in
theorem Chain.attained {nodes : List κ} (chain : Chain g root edges (node :: nodes)) :
    Attained g root edges node := by
  generalize same : node :: nodes = whole at chain
  induction chain generalizing node nodes with
  | first member target =>
    cases same
    exact .first member target
  | next chain inner opened member target ih =>
    cases same
    exact .next (ih rfl) inner opened member target

omit [DecidableEq κ] in
theorem Calls.leaving {nodes : List κ} (calls : Calls g root edges edge nodes) :
    Leaving g root edges edge := by
  cases calls with
  | outermost member => exact .inl member
  | nested chain inner opened member => exact .inr ⟨_, _, chain.attained, inner, opened, member⟩

omit [DecidableEq κ] in
theorem Calls.chain {nodes : List κ} (calls : Calls g root edges edge nodes)
    (target : g.target edge = .ok node) :
    Chain g root edges (node :: nodes) := by
  cases calls with
  | outermost member => exact .first member target
  | nested chain inner opened member => exact .next chain inner opened member target

/-- What the states of a search keep: an edge of the agenda was found by nested calls, each of them
made for a node when it was met. -/
structure Within (g : Graph ρ κ ε) (root : κ) (limit : Nat) (edges : List ρ) (s : State ρ κ) :
    Prop where
  met : ∀ node ∈ s.met, Attained g root edges node
  agenda : ∀ n edge, (n, edge) ∈ s.agenda → ∃ nodes, Calls g root edges edge nodes ∧
    (root :: nodes).Nodup ∧
    (∀ node ∈ nodes, node ∈ s.met) ∧ n + nodes.length = limit

omit [DecidableEq κ] in
theorem within_start (limit : Nat) (edges : List ρ) :
    Within g root limit edges (start limit edges) := by
  refine ⟨fun node never => (nomatch never), ?_⟩
  intro n edge member
  obtain ⟨first, isFirst, same⟩ := List.mem_map.mp member
  cases same
  refine ⟨[], .outermost isFirst, ?_, ?_, rfl⟩
  · exact List.pairwise_singleton _ _
  · exact fun _ never => nomatch never

omit [DecidableEq κ] in
/-- A call for a node that was not met before. -/
theorem Calls.fresh {nodes met : List κ} (distinct : (root :: nodes).Nodup)
    (among : ∀ node ∈ nodes, node ∈ met)
    (unseen : node ∉ met) (inner : node ≠ root) : (root :: node :: nodes).Nodup := by
  obtain ⟨apart, distinct⟩ := List.nodup_cons.mp distinct
  refine List.nodup_cons.mpr
    ⟨fun member => ?_, List.nodup_cons.mpr ⟨fun member => unseen (among node member), distinct⟩⟩
  obtain same | member := List.mem_cons.mp member
  · exact inner same.symm
  · exact apart member

theorem Within.step (within : Within g root limit edges s) (more : next g root s = .more t) :
    Within g root limit edges t := by
  obtain ⟨met, agenda⟩ := s
  cases agenda with
  | nil => cases more
  | cons first rest =>
    obtain ⟨n, edge⟩ := first
    obtain ⟨nodes, calls, distinct, among, deep⟩ := within.agenda n edge List.mem_cons_self
    have later : ∀ {node : κ} m other, (m, other) ∈ rest → ∃ nodes, Calls g root edges other nodes ∧
      (root :: nodes).Nodup ∧
        (∀ before ∈ nodes, before ∈ node :: met) ∧ m + nodes.length = limit := by
      intro node m other member
      obtain ⟨nodes, calls, distinct, among, deep⟩ := within.agenda m other
        (List.mem_cons_of_mem _ member)
      exact ⟨nodes, calls, distinct, fun before isBefore =>
        List.mem_cons_of_mem _ (among before isBefore), deep⟩
    have grown : ∀ {node : κ}, g.target edge = .ok node → ∀ other ∈ node ::
      met, Attained g root edges other := by
      intro node target other member
      rcases List.mem_cons.mp member with rfl | member
      · exact calls.leaving.attains target
      · exact within.met other member
    unfold next at more
    dsimp only at more
    split at more
    · cases more
    · rename_i node target
      split at more
      · cases more
        exact ⟨within.met, fun m other member => within.agenda m other (List.mem_cons_of_mem _ member)⟩
      · rename_i unseen
        split at more
        · cases more
          exact ⟨grown target, later⟩
        · rename_i inner
          split at more
          · cases more
          · rename_i out opened
            split at more
            · cases more
            · cases more
              refine ⟨grown target, fun m other member => ?_⟩
              rcases List.mem_append.mp member with new | old
              · obtain ⟨leaves, isLeaving, same⟩ := List.mem_map.mp new
                cases same
                refine ⟨node :: nodes, .nested (calls.chain target) inner opened isLeaving,
                  Calls.fresh distinct among unseen inner, ?_, ?_⟩
                · intro before member
                  rcases List.mem_cons.mp member with rfl | member
                  · exact List.mem_cons_self
                  · exact List.mem_cons_of_mem _ (among before member)
                · rw [List.length_cons]
                  omega
              · exact later m other old

theorem Within.run (reaches : Reaches g root (start limit edges) s) : Within g root limit edges s :=
  reaches.invariant (within_start limit edges) (fun _ _ _ within more => within.step more)

/-- A search that passes has met what is attained, and nothing else. -/
theorem search_attains (passes : search g root limit edges [] = (met, none)) :
    node ∈ met ↔ Attained g root edges node := by
  constructor
  · intro member
    have within : Within g root limit edges ⟨met, []⟩ := .run (search_passes.mpr passes)
    exact within.met node member
  · intro attained
    obtain ⟨first, later⟩ := search_covers passes
    induction attained with
    | first member target =>
      obtain ⟨node, isMet, same⟩ := first _ member
      rw [target] at same
      cases same
      exact isMet
    | next attained inner opened member target ih =>
      obtain ⟨out, same, covered⟩ := later _ ih inner
      rw [opened] at same
      cases same
      obtain ⟨node, isMet, same⟩ := covered _ member
      rw [target] at same
      cases same
      exact isMet

/-- No edge and no node that the search can meet is faulty. -/
structure Flawless (g : Graph ρ κ ε) (root : κ) (edges : List ρ) : Prop where
  leads : ∀ edge, Leaving g root edges edge → ∃ node, g.target edge = .ok node
  opens : ∀ node, Attained g root edges node → node ≠ root → ∃ out, g.edges node = .ok out

theorem search_flawless (passes : search g root limit edges [] = (met, none)) :
    Flawless g root edges := by
  obtain ⟨first, later⟩ := search_covers passes
  constructor
  · rintro edge (member | ⟨before, out, attained, inner, opened, member⟩)
    · obtain ⟨node, _, target⟩ := first edge member
      exact ⟨node, target⟩
    · obtain ⟨out', same, covered⟩ := later before ((search_attains passes).mpr attained) inner
      rw [opened] at same
      cases same
      obtain ⟨node, _, target⟩ := covered edge member
      exact ⟨node, target⟩
  · intro node attained inner
    obtain ⟨out, opened, _⟩ := later node ((search_attains passes).mpr attained) inner
    exact ⟨out, opened⟩

/-- A search passes if and only if nothing that it can meet is faulty, unless its calls would be
nested too deep, which takes a chain without repetition that is longer than they can be nested. -/
theorem search_outcome : ((search g root limit edges []).2 = none ↔ Flawless g root edges) ∨
    (search g root limit edges []).2 = some g.overflow ∧ Overlong g root edges limit := by
  obtain ⟨t, reaches, stops⟩ := search_halts g root limit edges
  have within := Within.run reaches
  cases result : search g root limit edges [] with
  | mk met fault =>
    rw [result] at stops
    cases fault with
    | none => exact .inl (iff_of_true rfl (search_flawless result))
    | some e =>
      cases next_stops stops with
      | edge n edge met rest e faulty =>
        refine .inl (iff_of_false (fun never => by cases never) (fun flawless => ?_))
        obtain ⟨_, calls, _⟩ := within.agenda n edge List.mem_cons_self
        obtain ⟨node, target⟩ := flawless.leads edge calls.leaving
        rw [target] at faulty
        cases faulty
      | node n edge node met rest e target unseen inner why =>
        obtain ⟨nodes, calls, distinct, among, deep⟩ := within.agenda n edge List.mem_cons_self
        rcases why with faulty | ⟨none_left, rfl⟩
        · refine .inl (iff_of_false (fun never => by cases never) (fun flawless => ?_))
          obtain ⟨out, opened⟩ := flawless.opens node (calls.leaving.attains target) inner
          rw [opened] at faulty
          cases faulty
        · -- As many calls are nested as there can be, and this is one more.
          refine .inr ⟨rfl, node :: nodes, calls.chain target,
            Calls.fresh distinct among unseen inner, ?_⟩
          rw [List.length_cons]
          omega

end Exactness

end DepthFirst
