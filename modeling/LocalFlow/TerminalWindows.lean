import LocalFlow.Library.Bisect
import LocalFlow.Library.Utf8
import Mathlib.Data.Nat.Find

/-! Byte windows of a task's log that also fit the rows a terminal can show. -/
namespace LocalFlow
open Bisecting Utf8

structure Window where
  start : Nat
  stop : Nat
  deriving DecidableEq, Repr

inductive Direction where
  | tail | earlier | later | hit
  deriving DecidableEq, Repr

/-- `direction in {"later", "hit"}`. -/
def Direction.forward : Direction → Bool
  | later | hit => true
  | tail | earlier => false

namespace Window

/-- `data[start:stop]`. -/
def slice (data : List UInt8) (start stop : Nat) : List UInt8 := (data.drop start).take (stop - start)

/-- A byte is at most one cell wide and a tab at most eight. Each line feed adds a row to those of
wrapping. -/
def cost (columns : Nat) (value : List UInt8) : Nat :=
  value.count 10 + (value.length + 7 * value.count 9 + columns - 1) / columns

/-- The first or the last `middle` bytes. -/
def part (data : List UInt8) (forward : Bool) (middle : Nat) : List UInt8 :=
  if forward then data.take middle else data.drop (data.length - middle)

/-- How many bytes the rows hold. -/
def fitting (columns : Nat) (data : List UInt8) (forward : Bool) : Nat :=
  greatest (fun middle => cost columns (part data forward middle) ≤ 4000) 0 data.length

/-- Backs up over bytes that continue a character, for so many steps. -/
def backUp (data : List UInt8) : Nat → Nat → Nat
  | 0, place => place
  | _, 0 => 0
  | steps + 1, place + 1 => if continuesAt data (place + 1) then backUp data steps place else place + 1

/-- Goes on over bytes that continue a character, for so many steps. -/
def goOn (data : List UInt8) : Nat → Nat → Nat
  | 0, place => place
  | steps + 1, place => if continuesAt data place then goOn data steps (place + 1) else place

/-- Where a window ends that may hold `candidate` bytes. Malformed runs have no boundary to align. -/
def forwardEdge (data : List UInt8) (candidate : Nat) : Nat :=
  let stop := backUp data 3 candidate
  if stop = 0 ∨ continuesAt data stop then candidate else stop

/-- Where a window starts that may start at `candidate`. -/
def backwardEdge (data : List UInt8) (candidate : Nat) : Nat :=
  let start := goOn data 3 candidate
  if start = data.length ∨ continuesAt data start then candidate else start

/-- `min(1000, max(2, columns))`. -/
def clamped (columns : Int) : Nat := (min 1000 (max 2 columns)).toNat

/-- The range that is read, of a file of so many bytes. -/
def requested (size : Nat) (start stop : Int) (hit : Option Int) : Window :=
  let stop := min (max 0 stop) size
  let start := min stop (max (max 0 start) (stop - 4 * 1024 * 1024))
  let start := hit.elim start (fun hit => max start (min stop hit - 1024))
  ⟨start.toNat, stop.toNat⟩

/-- The window of a range of the file. -/
def ofRange (columns : Nat) (content : List UInt8) (range : Window) (forward : Bool) : Window :=
  let data := slice content range.start range.stop
  let low := fitting columns data forward
  if forward then ⟨range.start, range.start + forwardEdge data low⟩
  else ⟨range.start + backwardEdge data (data.length - low), range.stop⟩

end Window

/-- `terminal_window`. A log that is not there yet has an empty window. -/
def terminalWindow (file : Option (List UInt8)) (start stop columns : Int) (direction : Direction)
    (hit : Option Int) : Window :=
  file.elim ⟨0, 0⟩ (fun content =>
    Window.ofRange (Window.clamped columns) content
      (Window.requested content.length start stop hit) direction.forward)

namespace Window
variable {columns s e low : Nat} {data content : List UInt8} {forward : Bool}

theorem length_slice (ordered : s ≤ e) (within : e ≤ data.length) :
    (slice data s e).length = e - s := by
  rw [slice, List.length_take, List.length_drop]
  omega

theorem slice_slice {a b : Nat} (within : s + b ≤ e) :
    slice (slice content s e) a b = slice content (s + a) (s + b) := by
  rw [slice, slice, slice, List.drop_take, List.drop_drop, List.take_take]
  congr 1
  omega

theorem part_forward {n : Nat} : part data true n = slice data 0 n := by
  rw [part, if_pos rfl, slice, List.drop_zero, Nat.sub_zero]

theorem part_backward {n : Nat} : part data false n = slice data (data.length - n) data.length := by
  rw [part, if_neg Bool.false_ne_true, slice, List.take_of_length_le]
  exact Nat.le_of_eq List.length_drop

theorem slice_sublist {a b c d : Nat} (left : c ≤ a) (right : b ≤ d) :
    (slice data a b).Sublist (slice data c d) := by
  rcases Nat.lt_or_ge b a with empty | ordered
  · rw [slice, Nat.sub_eq_zero_of_le (by omega), List.take_zero]
    exact List.nil_sublist _
  · have inner : slice (slice data c d) (a - c) (b - c) = slice data a b := by
      rw [slice_slice (by omega)]
      congr 1
      · omega
      · omega
    rw [← inner, slice]
    exact (List.take_sublist _ _).trans (List.drop_sublist _ _)

theorem cost_mono {small large : List UInt8} (sub : small.Sublist large) :
    cost columns small ≤ cost columns large := by
  have lines : small.count 10 ≤ large.count 10 := sub.count_le 10
  have tabs : small.count 9 ≤ large.count 9 := sub.count_le 9
  have sizes := sub.length_le
  unfold cost
  apply Nat.add_le_add lines
  apply Nat.div_le_div_right
  omega

theorem cost_nil (positive : 0 < columns) : cost columns [] = 0 := by
  rw [cost, List.count_nil, List.count_nil, List.length_nil, Nat.div_eq_of_lt (by omega)]

/-- One byte fits whatever it is. -/
theorem cost_single {byte : UInt8} (positive : 0 < columns) : cost columns [byte] ≤ 4000 := by
  have lines : [byte].count 10 ≤ 1 := List.count_le_length
  have tabs : [byte].count 9 ≤ 1 := List.count_le_length
  have wrapped : (1 + 7 * [byte].count 9 + columns - 1) / columns ≤ 8 := by
    apply Nat.div_le_of_le_mul
    have : 8 ≤ columns * 8 := Nat.le_mul_of_pos_left 8 positive
    have : columns * 8 = columns * 7 + columns := by omega
    have : 7 ≤ columns * 7 := Nat.le_mul_of_pos_left 7 positive
    omega
  rw [cost, List.length_singleton]
  omega

/-- A longer part holds a shorter one, from either side. -/
theorem part_sublist {m n : Nat} (less : m ≤ n) :
    (part data forward m).Sublist (part data forward n) := by
  cases forward with
  | true =>
    rw [part_forward, part_forward]
    exact slice_sublist (Nat.le_refl 0) less
  | false =>
    rw [part_backward, part_backward]
    exact slice_sublist (by omega) (Nat.le_refl _)

/-- What the bisection finds: the longest part that the rows hold. -/
structure Longest (columns : Nat) (data : List UInt8) (forward : Bool) (low : Nat) : Prop where
  within : low ≤ data.length
  fits : cost columns (part data forward low) ≤ 4000
  longest : ∀ n ≤ data.length, cost columns (part data forward n) ≤ 4000 → n ≤ low

theorem part_zero : part data forward 0 = [] := by
  cases forward with
  | true => rfl
  | false => exact List.drop_of_length_le (by omega)

theorem longest_fitting (positive : 0 < columns) :
    Longest columns data forward (fitting columns data forward) := by
  have first : decide (cost columns (part data forward 0) ≤ 4000) = true := by
    rw [part_zero, cost_nil positive]
    rfl
  have down : Downward (fun n => decide (cost columns (part data forward n) ≤ 4000)) := by
    intro m n less fit
    have large := of_decide_eq_true fit
    exact decide_eq_true (Nat.le_trans (cost_mono (part_sublist less)) large)
  have found := @greatest_fits
    (fun n => decide (cost columns (part data forward n) ≤ 4000)) 0 data.length first
  refine ⟨(greatest_bounds (Nat.zero_le _)).2, of_decide_eq_true found, ?_⟩
  intro n within fit
  exact le_greatest down (decide_eq_true fit) within (Nat.zero_le _)

theorem backUp_spec (steps place : Nat) :
    backUp data steps place ≤ place ∧ place ≤ backUp data steps place + steps ∧
    (∀ i, backUp data steps place < i → i ≤ place → continuesAt data i = true) ∧
    (backUp data steps place = 0 ∨ place = backUp data steps place + steps ∨
      continuesAt data (backUp data steps place) = false) := by
  induction steps generalizing place with
  | zero =>
    rw [backUp]
    exact ⟨Nat.le_refl _, Nat.le_refl _, fun i above below => absurd above (by omega), .inr (.inl rfl)⟩
  | succ steps ih =>
    cases place with
    | zero =>
      rw [backUp]
      · exact ⟨Nat.le_refl _, Nat.zero_le _, fun i above below => absurd above (by omega), .inl rfl⟩
      · exact Nat.succ_ne_zero steps
    | succ place =>
      rw [backUp]
      split
      · rename_i continued
        obtain ⟨below, near, run, ends⟩ := ih place
        refine ⟨by omega, by omega, ?_, ends.imp_right (Or.imp_left (by omega))⟩
        intro i above most
        rcases Nat.lt_or_ge place i with last | inside
        · obtain rfl : i = place + 1 := by omega
          exact continued
        · exact run i above inside
      · rename_i begun
        have free : continuesAt data (place + 1) = false := Bool.eq_false_iff.mpr begun
        exact ⟨Nat.le_refl _, by omega, fun i above below => absurd above (by omega), .inr (.inr free)⟩

theorem goOn_spec (steps place : Nat) :
    place ≤ goOn data steps place ∧ goOn data steps place ≤ place + steps ∧
    (∀ i, place ≤ i → i < goOn data steps place → continuesAt data i = true) ∧
    (goOn data steps place = place + steps ∨ continuesAt data (goOn data steps place) = false) := by
  induction steps generalizing place with
  | zero =>
    rw [goOn]
    exact ⟨Nat.le_refl _, Nat.le_refl _, fun i above below => absurd above (by omega), .inl rfl⟩
  | succ steps ih =>
    rw [goOn]
    split
    · rename_i continued
      obtain ⟨above, near, run, ends⟩ := ih (place + 1)
      refine ⟨by omega, by omega, ?_, ends.imp_left (by omega)⟩
      intro i least below
      rcases Nat.lt_or_ge place i with later | first
      · exact run i later below
      · obtain rfl : i = place := by omega
        exact continued
    · rename_i begun
      exact ⟨Nat.le_refl _, by omega, fun i above below => absurd above (by omega),
        .inr (by simpa using begun)⟩

/-- Where a forward window ends: at a byte that begins a character, or where it might, after nothing
but bytes that continue one or at a malformed run. -/
theorem forwardEdge_spec (low : Nat) : forwardEdge data low ≤ low ∧ low ≤ forwardEdge data low + 3 ∧
    (0 < low → 0 < forwardEdge data low) ∧
    (continuesAt data (forwardEdge data low) = false ∨
      (forwardEdge data low = low ∧ ∀ i, 0 < i → i ≤ low → continuesAt data i = true) ∨
      ∃ r, low = r + 3 ∧ ∀ i, r ≤ i → i ≤ low → continuesAt data i = true) := by
  obtain ⟨below, near, run, ends⟩ := @backUp_spec data 3 low
  dsimp only [forwardEdge]
  split
  · rename_i stuck
    refine ⟨Nat.le_refl _, Nat.le_add_right _ _, id, .inr ?_⟩
    rcases Nat.eq_zero_or_pos (backUp data 3 low) with bottom | positive
    · exact .inl ⟨rfl, fun i above most => run i (by omega) most⟩
    · have continued := stuck.resolve_left (by omega)
      right
      refine ⟨backUp data 3 low, ?_, ?_⟩
      · rcases ends with bottom | far | begun
        · omega
        · exact far
        · rw [begun] at continued
          exact absurd continued Bool.false_ne_true
      · intro i least most
        rcases Nat.eq_or_lt_of_le least with rfl | above
        · exact continued
        · exact run i above most
  · rename_i free
    obtain ⟨positive, begun⟩ := not_or.mp free
    exact ⟨below, near, fun _ => Nat.pos_of_ne_zero positive, .inl (Bool.eq_false_iff.mpr begun)⟩

/-- Where a backward window starts. -/
theorem backwardEdge_spec {first : Nat} (within : first ≤ data.length) :
    first ≤ backwardEdge data first ∧
    backwardEdge data first ≤ first + 3 ∧ backwardEdge data first ≤ data.length ∧
    (first < data.length → backwardEdge data first < data.length) ∧
    (continuesAt data (backwardEdge data first) = false ∨
      (backwardEdge data first = first ∧ ∀ i, first ≤ i → i < data.length → continuesAt data i = true) ∨
      ∀ i, first ≤ i → i ≤ first + 3 → continuesAt data i = true) := by
  obtain ⟨above, near, run, ends⟩ := @goOn_spec data 3 first
  have inside : goOn data 3 first ≤ data.length := by
    rcases Nat.eq_or_lt_of_le above with same | more
    · omega
    · have last := continuesAt_lt (run (goOn data 3 first - 1) (by omega) (by omega))
      omega
  dsimp only [backwardEdge]
  split
  · rename_i stuck
    refine ⟨Nat.le_refl _, Nat.le_add_right _ _, within, id, .inr ?_⟩
    rcases stuck with top | continued
    · left
      exact ⟨rfl, fun i least most => run i least (by omega)⟩
    · right
      rcases ends with far | begun
      · intro i least most
        rcases Nat.eq_or_lt_of_le most with rfl | below
        · rw [← far]
          exact continued
        · exact run i least (by omega)
      · rw [begun] at continued
        exact absurd continued Bool.false_ne_true
  · rename_i free
    obtain ⟨top, begun⟩ := not_or.mp free
    exact ⟨above, near, inside, fun _ => by omega, .inl (Bool.eq_false_iff.mpr begun)⟩

theorem continuesAt_slice {i : Nat} (inside : s + i < e) :
    continuesAt (slice content s e) i = continuesAt content (s + i) := by
  rw [continuesAt, continuesAt, slice, List.getElem?_take, if_pos (by omega), List.getElem?_drop]

/-- What a window shows of the range `[s, e)` that was asked for. -/
structure Fitted (content : List UInt8) (columns s e : Nat) (forward : Bool) (w : Window) : Prop where
  inside : s ≤ w.start ∧ w.start ≤ w.stop ∧ w.stop ≤ e
  rows : cost columns (slice content w.start w.stop) ≤ 4000
  shows : s < e → w.start < w.stop
  anchored : if forward then w.start = s else w.stop = e
  longest : ∀ other : Window, s ≤ other.start → other.start ≤ other.stop → other.stop ≤ e →
    (if forward then other.start = s else other.stop = e) →
      cost columns (slice content other.start other.stop) ≤ 4000 →
    other.stop - other.start ≤ w.stop - w.start + 3
  aligned : ∀ chars, content = encode chars → ∀ edge, edge = (if forward then w.stop else w.start) →
    edge = s ∨ edge = e ∨ Boundary chars edge ∨ ∀ place, w.start < place → place < w.stop →
      ¬Boundary chars place

/-- In a text no four bytes in a row continue a character. -/
theorem no_run (chars : List Char) (first : Nat) :
    ¬∀ i, first ≤ i → i ≤ first + 3 → continuesAt (encode chars) i = true := by
  intro run
  obtain ⟨k, three, within, free⟩ := begins_near chars (first + 3)
  rw [run (first + 3 - k) (by omega) (by omega)] at free
  exact absurd free.symm Bool.false_ne_true

theorem fitted_forward (positive : 0 < columns) (ordered : s ≤ e) (within : e ≤ content.length) :
    Fitted content columns s e true (ofRange columns content ⟨s, e⟩ true) := by
  have size : (slice content s e).length = e - s := length_slice ordered within
  have found := @longest_fitting columns (slice content s e) true positive
  obtain ⟨most, fits, longest⟩ := found
  obtain ⟨less, near, some, ends⟩ :=
    @forwardEdge_spec (slice content s e) (fitting columns (slice content s e) true)
  have same : ofRange columns content ⟨s, e⟩ true =
      ⟨s, s + forwardEdge (slice content s e) (fitting columns (slice content s e) true)⟩ := rfl
  rw [same]
  generalize fitting columns (slice content s e) true = low at most fits longest less near some ends
  generalize forwardEdge (slice content s e) low = last at less near some ends
  rw [size] at most longest
  have sliced : ∀ n, s + n ≤ e → part (slice content s e) true n = slice content s (s + n) := by
    intro n inside
    rw [part_forward, slice_slice inside, Nat.add_zero]
  have reach : s + last ≤ e := by omega
  refine ⟨⟨Nat.le_refl s, Nat.le_add_right _ _, reach⟩, ?_, ?_, rfl, ?_, ?_⟩
  · have small : cost columns (slice content s (s + last)) ≤ cost columns (slice content s (s + low)) :=
      cost_mono (slice_sublist (Nat.le_refl s) (by omega))
    rw [sliced low (by omega)] at fits
    exact Nat.le_trans small fits
  · intro nonempty
    have single : cost columns (part (slice content s e) true 1) ≤ 4000 := by
      obtain ⟨byte, rest, same⟩ : ∃ byte rest, slice content s e = byte :: rest :=
        List.exists_cons_of_length_pos (by omega)
      rw [same]
      exact cost_single positive
    have least := longest 1 (by omega) single
    have := some (by omega)
    show s < s + last
    omega
  · intro other above ordered' below same cheap
    replace same : other.start = s := same
    rw [same] at ordered' cheap
    have bound := longest (other.stop - s) (by omega) (by
      rw [sliced _ (by omega), Nat.add_sub_cancel' ordered']
      exact cheap)
    show other.stop - other.start ≤ s + last - s + 3
    omega
  · rintro chars rfl edge rfl
    show s + last = s ∨ s + last = e ∨ Boundary chars (s + last) ∨
      ∀ place, s < place → place < s + last → ¬Boundary chars place
    rcases Nat.eq_or_lt_of_le reach with whole | short
    · exact .inr (.inl whole)
    · rcases ends with begun | ⟨all, run⟩ | ⟨r, far, run⟩
      · rw [continuesAt_slice short] at begun
        exact .inr (.inr (.inl (boundary_iff.mpr ⟨by omega, begun⟩)))
      · right; right; right
        intro place above below boundary
        have continued := run (place - s) (by omega) (by omega)
        rw [continuesAt_slice (by omega), Nat.add_sub_cancel' (by omega),
          (boundary_iff.mp boundary).2] at continued
        exact Bool.false_ne_true continued
      · have inside := continuesAt_lt (run low (by omega) (Nat.le_refl _))
        refine absurd (fun i least most => ?_) (no_run chars (s + r))
        have continued := run (i - s) (by omega) (by omega)
        rwa [continuesAt_slice (by omega), Nat.add_sub_cancel' (by omega)] at continued

theorem fitted_backward (positive : 0 < columns) (ordered : s ≤ e) (within : e ≤ content.length) :
    Fitted content columns s e false (ofRange columns content ⟨s, e⟩ false) := by
  have size : (slice content s e).length = e - s := length_slice ordered within
  have found := @longest_fitting columns (slice content s e) false positive
  obtain ⟨most, fits, longest⟩ := found
  have same : ofRange columns content ⟨s, e⟩ false =
      ⟨s + backwardEdge (slice content s e) (e - s - fitting columns (slice content s e) false),
        e⟩ := by
    rw [← size]
    rfl
  rw [same]
  generalize fitting columns (slice content s e) false = low at most fits longest
  obtain ⟨more, near, inside, some, ends⟩ :=
    @backwardEdge_spec (slice content s e) (e - s - low) (by omega)
  generalize backwardEdge (slice content s e) (e - s - low) = first at more near inside some ends
  rw [size] at most longest inside some ends
  have sliced : ∀ n ≤ e - s, part (slice content s e) false n = slice content (e - n) e := by
    intro n inside
    rw [part_backward, size, slice_slice (by omega)]
    congr 1
    · omega
    · omega
  have reach : s + first ≤ e := by omega
  refine ⟨⟨Nat.le_add_right _ _, reach, Nat.le_refl e⟩, ?_, ?_, rfl, ?_, ?_⟩
  · have small : cost columns (slice content (s + first) e) ≤ cost columns
      (slice content (e - low) e) :=
      cost_mono (slice_sublist (by omega) (Nat.le_refl e))
    rw [sliced low most] at fits
    exact Nat.le_trans small fits
  · intro nonempty
    have single : cost columns (part (slice content s e) false 1) ≤ 4000 := by
      obtain ⟨byte, same⟩ : ∃ byte, part (slice content s e) false 1 = [byte] := by
        apply List.length_eq_one_iff.mp
        rw [part_backward, length_slice (by omega) (Nat.le_refl _)]
        omega
      rw [same]
      exact cost_single positive
    have least := longest 1 (by omega) single
    have := some (by omega)
    show s + first < e
    omega
  · intro other above ordered' below same cheap
    replace same : other.stop = e := same
    rw [same] at ordered' cheap
    have bound := longest (e - other.start) (by omega) (by
      rw [sliced _ (by omega), Nat.sub_sub_self ordered']
      exact cheap)
    show other.stop - other.start ≤ e - (s + first) + 3
    omega
  · rintro chars rfl edge rfl
    show s + first = s ∨ s + first = e ∨ Boundary chars (s + first) ∨
      ∀ place, s + first < place → place < e → ¬Boundary chars place
    rcases Nat.eq_or_lt_of_le reach with whole | short
    · exact .inr (.inl whole)
    · rcases ends with begun | ⟨all, run⟩ | run
      · rw [continuesAt_slice short] at begun
        exact .inr (.inr (.inl (boundary_iff.mpr ⟨by omega, begun⟩)))
      · right; right; right
        intro place above below boundary
        have continued := run (place - s) (by omega) (by omega)
        rw [continuesAt_slice (by omega), Nat.add_sub_cancel' (by omega),
          (boundary_iff.mp boundary).2] at continued
        exact Bool.false_ne_true continued
      · have inside := continuesAt_lt (run (e - s - low + 3) (by omega) (Nat.le_refl _))
        refine absurd (fun i least most => ?_) (no_run chars (s + (e - s - low)))
        have continued := run (i - s) (by omega) (by omega)
        rwa [continuesAt_slice (by omega), Nat.add_sub_cancel' (by omega)] at continued

theorem clamped_pos (columns : Int) : 0 < clamped columns := by
  unfold clamped
  omega

theorem fitted_ofRange (positive : 0 < columns) (ordered : s ≤ e) (within : e ≤ content.length) :
    Fitted content columns s e forward (ofRange columns content ⟨s, e⟩ forward) := by
  cases forward with
  | true => exact fitted_forward positive ordered within
  | false => exact fitted_backward positive ordered within

theorem requested_plain {size : Nat} {start stop : Int} (last : (e : Int) = min (max 0 stop) size)
    (first : (s : Int) = min (e : Int) (max 0 (max start (e - 4 * 1024 * 1024)))) :
    requested size start stop none = ⟨s, e⟩ := by
  have left : (requested size start stop none).start = s := by
    show (min (min (max 0 stop) (size : Int))
      (max (max 0 start) (min (max 0 stop) size - 4 * 1024 * 1024))).toNat = s
    omega
  have right : (requested size start stop none).stop = e := by
    show (min (max 0 stop) (size : Int)).toNat = e
    omega
  rw [← left, ← right]

theorem requested_inside (size : Nat) (start stop : Int) (hit : Option Int) :
    (requested size start stop hit).start ≤ (requested size start stop hit).stop ∧
      (requested size start stop hit).stop ≤ size := by
  cases hit with
  | none =>
    dsimp only [requested, Option.elim_none]
    omega
  | some hit =>
    dsimp only [requested, Option.elim_some]
    omega

/-- A window holds the bytes between its edges. -/
def Holds (w : Window) (place : Nat) : Prop := w.start ≤ place ∧ place < w.stop

/-- A window that is shown, the windows asked for up to where the last one starts, and those asked
for from where the last one stops. -/
structure Browsed (content : List UInt8) (earlier later : Nat → Window) : Prop where
  shown : ∃ start stop columns direction hit,
    earlier 0 = terminalWindow (some content) start stop columns direction hit
  same : later 0 = earlier 0
  back : ∀ n, 0 < (earlier n).start → ∃ start columns : Int, start < (earlier n).start ∧
    earlier (n + 1) = terminalWindow (some content) start (earlier n).start columns .earlier none
  forth : ∀ n, (later n).stop < content.length → ∃ stop columns : Int, (later n).stop < stop ∧
    stop ≤ (later n).stop + 4 * 1024 * 1024 ∧
    later (n + 1) = terminalWindow (some content) (later n).stop stop columns .later none

/-- What is left shrinks until nothing is. -/
theorem exhausted {left : Nat → Nat} (shrinks : ∀ n, 0 < left n → left (n + 1) < left n) :
    ∃ m, left m = 0 ∧ ∀ n < m, 0 < left n := by
  have reaches : ∃ m, left m = 0 := by
    by_contra never
    have positive : ∀ n, 0 < left n := fun n => Nat.pos_of_ne_zero (fun zero => never ⟨n, zero⟩)
    have bound : ∀ n, left n + n ≤ left 0 := by
      intro n
      induction n with
      | zero => exact Nat.le_refl _
      | succ n ih =>
        have less := shrinks n (positive n)
        omega
    have := bound (left 0 + 1)
    omega
  exact ⟨Nat.find reaches, Nat.find_spec reaches, fun n less =>
    Nat.pos_of_ne_zero (Nat.find_min reaches less)⟩

/-- What comes to hold does so at some step. -/
theorem crossed {p : Nat → Prop} {m : Nat} (first : ¬p 0) (last : p m) : ∃ n < m, ¬p n ∧ p (n + 1) := by
  induction m with
  | zero => exact absurd last first
  | succ m ih =>
    by_cases before : p m
    · obtain ⟨n, less, crossing⟩ := ih before
      exact ⟨n, by omega, crossing⟩
    · exact ⟨m, by omega, before, last⟩

end Window

open Window

theorem fitted_terminalWindow (content : List UInt8) {start stop : Int} (columns : Int)
    (direction : Direction)
    {s e : Nat} (last : (e : Int) = min (max 0 stop) content.length)
    (first : (s : Int) = min (e : Int) (max 0 (max start (e - 4 * 1024 * 1024)))) :
    Fitted content (clamped columns) s e direction.forward
      (terminalWindow (some content) start stop columns direction none) := by
  rw [terminalWindow, Option.elim_some, requested_plain last first]
  exact fitted_ofRange (clamped_pos columns) (by omega) (by omega)

theorem terminalWindow_inside (content : List UInt8) (start stop columns : Int) (direction : Direction)
    (hit : Option Int) :
    (terminalWindow (some content) start stop columns direction hit).start ≤
        (terminalWindow (some content) start stop columns direction hit).stop ∧
      (terminalWindow (some content) start stop columns direction hit).stop ≤ content.length := by
  obtain ⟨ordered, within⟩ := requested_inside content.length start stop hit
  have fitted := @fitted_ofRange (clamped columns) _ _ content direction.forward
    (clamped_pos columns) ordered within
  exact ⟨fitted.inside.2.1, Nat.le_trans fitted.inside.2.2 within⟩

/-- The earlier window starts further up than the last one and holds all between. -/
theorem earlier_next {content : List UInt8} {start columns : Int} {edge : Nat}
    (asked : start < edge) (above : 0 < edge) :
    (terminalWindow (some content) start edge columns .earlier none).start < edge ∧
      ∀ place < content.length,
      (terminalWindow (some content) start edge columns .earlier none).start ≤ place →
        place < edge → (terminalWindow (some content) start edge columns .earlier none).Holds
          place := by
  obtain ⟨e, last⟩ : ∃ e : Nat, (e : Int) = min (max 0 (edge : Int)) content.length :=
    ⟨(min (max 0 (edge : Int)) content.length).toNat, by omega⟩
  obtain ⟨s, first⟩ : ∃ s : Nat, (s : Int) = min (e : Int) (max 0 (max start (e - 4 * 1024 * 1024))) :=
    ⟨(min (e : Int) (max 0 (max start (e - 4 * 1024 * 1024)))).toNat, by omega⟩
  have fitted := fitted_terminalWindow content columns .earlier last first
  have same : (terminalWindow (some content) start edge columns .earlier none).stop = e :=
    fitted.anchored
  have inside := fitted.inside
  have shown := fitted.shows
  refine ⟨by omega, fun place within low high => ⟨low, ?_⟩⟩
  omega

/-- The later window starts where the last one stops and stops further down. -/
theorem later_next {content : List UInt8} {stop columns : Int} {edge : Nat}
    (below : edge < content.length)
    (asked : edge < stop) (near : stop ≤ edge + 4 * 1024 * 1024) :
    (terminalWindow (some content) edge stop columns .later none).start = edge ∧
      edge < (terminalWindow (some content) edge stop columns .later none).stop ∧
      (terminalWindow (some content) edge stop columns .later none).stop ≤ content.length := by
  obtain ⟨e, last⟩ : ∃ e : Nat, (e : Int) = min (max 0 stop) content.length :=
    ⟨(min (max 0 stop) (content.length : Int)).toNat, by omega⟩
  have fitted := @fitted_terminalWindow content edge stop columns .later edge e last (by omega)
  have same : (terminalWindow (some content) edge stop columns .later none).start = edge :=
    fitted.anchored
  have inside := fitted.inside
  have shown := fitted.shows (by omega)
  exact ⟨same, by omega, by omega⟩

namespace Window.Browsed
variable {content : List UInt8} {earlier later : Nat → Window} (browsed : Browsed content earlier later)
include browsed

theorem earlier_ends : ∃ m, (earlier m).start = 0 ∧ ∀ n < m, 0 < (earlier n).start := by
  apply exhausted
  intro n above
  obtain ⟨start, columns, asked, next⟩ := browsed.back n above
  rw [next]
  exact (earlier_next asked above).1

theorem later_ends :
    ∃ k, content.length - (later k).stop = 0 ∧ ∀ n < k, 0 < content.length - (later n).stop := by
  apply @exhausted (fun n => content.length - (later n).stop)
  intro n below
  obtain ⟨stop, columns, asked, near, next⟩ := browsed.forth n (Nat.lt_of_sub_pos below)
  have moved := @later_next content stop columns (later n).stop (Nat.lt_of_sub_pos below) asked near
  rw [next]
  exact Nat.sub_lt_sub_left (Nat.lt_of_sub_pos below) moved.2.1

theorem inside : (earlier 0).stop ≤ content.length := by
  obtain ⟨start, stop, columns, direction, hit, same⟩ := browsed.shown
  rw [same]
  exact (terminalWindow_inside content start stop columns direction hit).2

theorem later_inside {k : Nat} (going : ∀ n < k, 0 < content.length - (later n).stop) :
    (later k).stop ≤ content.length := by
  cases k with
  | zero =>
    rw [browsed.same]
    exact browsed.inside
  | succ k =>
    have below := Nat.lt_of_sub_pos (going k (Nat.lt_succ_self k))
    obtain ⟨stop, columns, asked, near, next⟩ := browsed.forth k below
    rw [next]
    exact (later_next below asked near).2.2

theorem earlier_holds {m place : Nat} (top : (earlier m).start = 0)
    (going : ∀ n < m, 0 < (earlier n).start)
    (within : place < content.length) (before : place < (earlier 0).start) :
    ∃ n ≤ m, (earlier n).Holds place := by
  obtain ⟨n, less, above, low⟩ := @crossed (fun n => (earlier n).start ≤ place) m (by omega) (by omega)
  obtain ⟨start, columns, asked, next⟩ := browsed.back n (going n less)
  refine ⟨n + 1, less, ?_⟩
  rw [next] at low ⊢
  exact (earlier_next asked (going n less)).2 place within low (by omega)

theorem later_holds {k place : Nat} (bottom : (later k).stop = content.length)
    (going : ∀ n < k, 0 < content.length - (later n).stop) (within : place < content.length)
    (after : (later 0).stop ≤ place) : ∃ n ≤ k, (later n).Holds place := by
  obtain ⟨n, less, above, low⟩ := @crossed (fun n => place < (later n).stop) k (by omega) (by omega)
  have below := Nat.lt_of_sub_pos (going n less)
  obtain ⟨stop, columns, asked, near, next⟩ := browsed.forth n below
  have same := @later_next content stop columns (later n).stop below asked near
  refine ⟨n + 1, less, ?_⟩
  rw [next] at low ⊢
  exact ⟨by omega, low⟩

end Window.Browsed

/-- A window without a hit is what the request asks for, and windows asked for next to each other
leave no byte out. -/
theorem terminalWindow_browsable (content : List UInt8) :
    (∀ (start stop columns : Int) (direction : Direction) (s e : Nat),
      (e : Int) = min (max 0 stop) content.length →
      (s : Int) = min (e : Int) (max 0 (max start (e - 4 * 1024 * 1024))) →
      Fitted content (clamped columns) s e direction.forward
        (terminalWindow (some content) start stop columns direction none)) ∧
    (∀ earlier later, Browsed content earlier later → ∃ m k,
      (earlier m).start = 0 ∧ (∀ n < m, 0 < (earlier n).start) ∧
      (later k).stop = content.length ∧ (∀ n < k, (later n).stop < content.length) ∧
      ∀ place < content.length, (∃ n ≤ m, (earlier n).Holds place) ∨
        ∃ n ≤ k, (later n).Holds place) := by
  constructor
  · intro start stop columns direction s e last first
    exact fitted_terminalWindow content columns direction last first
  intro earlier later browsed
  obtain ⟨m, top, up⟩ := browsed.earlier_ends
  obtain ⟨k, bottom, down⟩ := browsed.later_ends
  have within := browsed.later_inside down
  have last : (later k).stop = content.length := by omega
  refine ⟨m, k, top, up, last, fun n less => Nat.lt_of_sub_pos (down n less), ?_⟩
  intro place inside
  by_cases before : place < (earlier 0).start
  · exact .inl (browsed.earlier_holds top up inside before)
  · by_cases after : (later 0).stop ≤ place
    · exact .inr (browsed.later_holds last down inside after)
    · rw [browsed.same] at after
      exact .inl ⟨0, Nat.zero_le m, by omega, by omega⟩

/-- An archive of one line, shown from its second byte on and then from its first. -/
theorem terminalWindow_browsable_line : ∃ m k :
    Nat, (([⟨1, 2⟩] : List Window).getD m ⟨0, 1⟩).start = 0 ∧
    (∀ n < m, 0 < (([⟨1, 2⟩] : List Window).getD n ⟨0, 1⟩).start) ∧ 2 = 2 ∧ (∀ n < k, 2 < 2) ∧
    ∀ place < 2, (∃ n ≤ m, (([⟨1, 2⟩] : List Window).getD n ⟨0, 1⟩).Holds place) ∨
      ∃ n ≤ k, Holds ⟨1, 2⟩ place := by
  refine (terminalWindow_browsable [120, 10]).2 (fun n => [⟨1, 2⟩].getD n ⟨0, 1⟩) (fun _ => ⟨1, 2⟩)
    ⟨?_, rfl, ?_, ?_⟩
  · exact ⟨1, 2, 80, .tail, none, by with_unfolding_all rfl⟩
  · intro n above
    cases n with
    | zero => exact ⟨0, 80, by decide, by with_unfolding_all rfl⟩
    | succ n => exact absurd above (Nat.lt_irrefl 0)
  · intro n below
    exact absurd below (Nat.lt_irrefl 2)

namespace Window
variable {columns s e low f hit : Nat} {data content : List UInt8}

theorem forwardEdge_eq_iff (less : f < low) : forwardEdge data low = f ↔ 0 < f ∧ low ≤ f + 3 ∧
    continuesAt data f = false ∧ ∀ i, f < i → i ≤ low → continuesAt data i = true := by
  obtain ⟨below, near, run, ends⟩ := @backUp_spec data 3 low
  dsimp only [forwardEdge]
  constructor
  · intro same
    split at same
    · omega
    · rename_i free
      obtain ⟨positive, begun⟩ := not_or.mp free
      rw [same] at near run positive begun
      exact ⟨Nat.pos_of_ne_zero positive, near, Bool.eq_false_iff.mpr begun, run⟩
  · rintro ⟨positive, close, begun, continued⟩
    have same : backUp data 3 low = f := by
      rcases Nat.lt_trichotomy (backUp data 3 low) f with short | same | long
      · rw [run f short (by omega)] at begun
        exact absurd begun.symm Bool.false_ne_true
      · exact same
      · have still := continued (backUp data 3 low) long below
        rcases ends with bottom | far | free
        · omega
        · omega
        · rw [free] at still
          exact absurd still Bool.false_ne_true
    rw [same, if_neg]
    rw [begun]
    exact not_or.mpr ⟨by omega, Bool.false_ne_true⟩

/-- The rows end within the character of the byte at `hit`, and the window does not begin with it. -/
def Severs (content : List UInt8) (columns s e hit : Nat) : Prop :=
  ∃ first last, s < first ∧ first ≤ hit ∧ hit < last ∧ last < e ∧ last ≤ first + 3 ∧
    continuesAt content first = false ∧ (∀ i, first < i → i ≤ last → continuesAt content i = true) ∧
    cost columns (slice content s last) ≤ 4000 ∧ 4000 < cost columns (slice content s (last + 1))

theorem holds_ofRange (positive : 0 < columns) (within : e ≤ content.length) (after : s ≤ hit)
    (before : hit < e) :
    (ofRange columns content ⟨s, e⟩ true).Holds hit ↔
      cost columns (slice content s (hit + 1)) ≤ 4000 ∧ ¬Severs content columns s e hit := by
  have size : (slice content s e).length = e - s := length_slice (by omega) within
  obtain ⟨most, fits, longest⟩ := @longest_fitting columns (slice content s e) true positive
  obtain ⟨less, -⟩ := @forwardEdge_spec (slice content s e) (fitting columns (slice content s e) true)
  have same : (ofRange columns content ⟨s, e⟩ true).Holds hit ↔
      s ≤ hit ∧ hit < s + forwardEdge (slice content s e)
        (fitting columns (slice content s e) true) := Iff.rfl
  rw [same]
  generalize fitting columns (slice content s e) true = low at most fits longest less
  rw [size] at most longest
  have sliced : ∀ n, s + n ≤ e → part (slice content s e) true n = slice content s (s + n) := by
    intro n inside
    rw [part_forward, slice_slice inside, Nat.add_zero]
  rw [sliced low (by omega)] at fits
  constructor
  · rintro ⟨-, shown⟩
    refine ⟨Nat.le_trans (cost_mono (slice_sublist (Nat.le_refl s) (by omega))) fits, ?_⟩
    rintro ⟨first, last, above, low', high, inside, near, begun, run, cheap, dear⟩
    have least := longest (last - s) (by omega)
      (by rwa [sliced _ (by omega), Nat.add_sub_cancel' (by omega)])
    -- The rows hold no more than what comes before `last`.
    have exact : low = last - s := by
      by_contra more
      have large : cost columns (slice content s (last + 1)) ≤ cost columns
        (slice content s (s + low)) :=
        cost_mono (slice_sublist (Nat.le_refl s) (by omega))
      omega
    have edge : forwardEdge (slice content s e) low = first - s := by
      refine (forwardEdge_eq_iff (by omega)).mpr ⟨by omega, by omega, ?_, ?_⟩
      · rw [continuesAt_slice (by omega), Nat.add_sub_cancel' (by omega)]
        exact begun
      · intro i above' most'
        rw [continuesAt_slice (by omega)]
        exact run (s + i) (by omega) (by omega)
    omega
  · rintro ⟨cheap, whole⟩
    refine ⟨after, ?_⟩
    have least := longest (hit + 1 - s) (by omega)
      (by rwa [sliced _ (by omega), Nat.add_sub_cancel' (by omega)])
    by_contra hidden
    obtain ⟨positive, near, begun, run⟩ :=
      (@forwardEdge_eq_iff low (forwardEdge (slice content s e) low) (slice content s e)
        (by omega)).mp rfl
    generalize forwardEdge (slice content s e) low = f at hidden less positive near begun run
    have short := continuesAt_lt (run low (by omega) (Nat.le_refl low))
    rw [continuesAt_slice (by omega)] at begun
    refine whole ⟨s + f, s + low, by omega, by omega, by omega, by omega, by omega, begun, ?_, fits, ?_⟩
    · intro i above most'
      have continued := run (i - s) (by omega) (by omega)
      rwa [continuesAt_slice (by omega), Nat.add_sub_cancel' (by omega)] at continued
    · by_contra cheaper
      have more := longest (low + 1) (by omega) (by
        rw [sliced _ (by omega)]
        exact Nat.le_of_not_lt cheaper)
      omega

theorem requested_hit {size hit : Nat} {start stop : Int} (near : stop - start ≤ 4 * 1024 * 1024)
    (after : start ≤ hit)
    (before : (hit : Int) < stop) (within : hit < size)
    (first : (s : Int) = max (max 0 start) (hit - 1024))
    (last : (e : Int) = min stop size) : requested size start stop (some hit) = ⟨s, e⟩ := by
  have left : (requested size start stop (some hit)).start = s := by
    dsimp only [requested, Option.elim_some]
    omega
  have right : (requested size start stop (some hit)).stop = e := by
    dsimp only [requested, Option.elim_some]
    omega
  rw [← left, ← right]

theorem clamped_within (least : 2 ≤ columns) (most : columns ≤ 1000) : clamped columns = columns := by
  unfold clamped
  omega

end Window

namespace Window
variable {columns s hit : Nat} {content value : List UInt8}

end Window

/-- The window of a hit shows it where the rows hold the context before it, and do not end within
its character. -/
theorem terminalWindow_holds_iff (content : List UInt8) (start stop : Int) (columns hit s e : Nat)
    (least : 2 ≤ columns)
    (most : columns ≤ 1000) (near : stop - start ≤ 4 * 1024 * 1024) (after : start ≤ hit)
    (before : (hit : Int) < stop)
    (within : hit < content.length) (first : (s : Int) = max (max 0 start) (hit - 1024))
    (last : (e : Int) = min stop content.length) :
    ((terminalWindow (some content) start stop columns .hit (some hit)).Holds hit ∧
      cost columns (slice content
        (terminalWindow (some content) start stop columns .hit (some hit)).start
        (terminalWindow (some content) start stop columns .hit (some hit)).stop) ≤ 4000) ↔
      cost columns (slice content s (hit + 1)) ≤ 4000 ∧ ¬Severs content columns s e hit := by
  have same : terminalWindow (some content) start stop columns .hit (some hit) =
    ofRange columns content ⟨s, e⟩ true := by
    rw [terminalWindow, Option.elim_some, requested_hit near after before within first last,
      clamped_within least most]
    rfl
  have fitted := @fitted_ofRange columns s e content true (by omega) (by omega) (by omega)
  rw [same, ← holds_ofRange (by omega) (by omega) (by omega) (by omega)]
  exact and_iff_left fitted.rows

/-- A hit in an archive of two lines. -/
theorem terminalWindow_holds_line :
    ((terminalWindow (some [120, 10, 121]) 0 3 80 .hit (some 2)).Holds 2 ∧
      cost 80 (slice [120, 10, 121] (terminalWindow (some [120, 10, 121]) 0 3 80 .hit (some 2)).start
        (terminalWindow (some [120, 10, 121]) 0 3 80 .hit (some 2)).stop) ≤ 4000) ↔
      cost 80 (slice [120, 10, 121] 0 3) ≤ 4000 ∧ ¬Severs [120, 10, 121] 80 0 3 2 :=
  terminalWindow_holds_iff [120, 10, 121] 0 3 80 2 0 3 (by decide) (by decide) (by decide)
    (by decide) (by decide)
    (by decide) (by decide) (by decide)

/-- In two columns a thousand tabs fill the rows before the hit. -/
theorem tabs_hide_hit :
    ¬∀ (content : List UInt8) (start stop : Int) (columns hit : Nat), 2 ≤ columns → columns ≤ 1000 →
    stop - start ≤ 4 * 1024 * 1024 → start ≤ hit → (hit : Int) < stop → hit < content.length →
    (terminalWindow (some content) start stop columns .hit (some hit)).Holds hit := by
  intro shown
  have holds := shown (List.replicate 1024 9 ++ [120]) 0 1025 2 1024 (by decide) (by decide)
    (by decide) (by decide)
    (by decide) (by rw [List.length_append, List.length_replicate]; decide)
  have same : terminalWindow (some (List.replicate 1024 9 ++ [120])) 0 1025 (2 : Nat) .hit
    (some (1024 : Nat)) =
      ofRange 2 (List.replicate 1024 9 ++ [120]) ⟨0, 1025⟩ true := by
    rw [terminalWindow, Option.elim_some, List.length_append, List.length_replicate]
    rfl
  have size : (List.replicate 1024 (9 : UInt8) ++ [120]).length = 1025 := by
    rw [List.length_append, List.length_replicate, List.length_singleton]
  rw [same, holds_ofRange (by decide) (Nat.le_of_eq size.symm) (by decide) (by decide)] at holds
  have whole : slice (List.replicate 1024 9 ++ [120]) 0 (1024 + 1) = List.replicate 1024 9 ++ [120] :=
    List.take_of_length_le (Nat.le_of_eq size)
  have dear : cost 2 (List.replicate 1024 9 ++ [120]) = 4097 := by
    rw [cost, size, List.count_append, List.count_append, List.count_replicate,
      List.count_replicate_self]
    rfl
  rw [whole, dear] at holds
  exact absurd holds.1 (by decide)

end LocalFlow
