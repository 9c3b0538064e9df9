import Mathlib.Algebra.GroupWithZero.Nat
import Mathlib.Algebra.Ring.Int.Defs
import Mathlib.Data.List.Basic
import Mathlib.Data.Set.Function

/-!
# The levels of a list that is joined two by two

A tree over a list: two neighbours of a level are joined to one element of the level above, and the
last one of an odd number is joined with itself.
-/

namespace PairedLevels

variable {α : Type*}

/-- The pairs of a level. -/
def pairs : List α → List (α × α)
  | [] => []
  | [a] => [(a, a)]
  | a :: b :: l => (a, b) :: pairs l

/-- The number of pairs. -/
@[simp] theorem length_pairs (l : List α) : (pairs l).length = (l.length + 1) / 2 := by
  induction l using pairs.induct with
  | case1 => simp [pairs]
  | case2 a => simp [pairs]
  | case3 a b l ih =>
    rw [pairs, List.length_cons, ih, List.length_cons, List.length_cons]
    omega

theorem getElem?_pairs (l : List α) (i : Nat) (a b : α) :
    (pairs l)[i]? = some (a, b) ↔ l[2 * i]? = some a ∧ l[min (2 * i + 1) (l.length - 1)]? = some b := by
  induction l using pairs.induct generalizing i with
  | case1 => simp [pairs]
  | case2 c =>
    cases i with
    | zero => simp [pairs]
    | succ i => simp [pairs]
  | case3 c d l ih =>
    cases i with
    | zero => simp [pairs]
    | succ i =>
      rw [pairs, List.getElem?_cons_succ, ih i, show 2 * (i + 1) = 2 * i + 1 + 1 by omega,
        List.getElem?_cons_succ, List.getElem?_cons_succ]
      cases l with
      | nil => simp
      | cons e l =>
        rw [show min (2 * i + 1 + 1 + 1) ((c :: d :: e :: l).length - 1) =
            min (2 * i + 1) ((e :: l).length - 1) + 1 + 1 by
          simp only [List.length_cons]
          omega, List.getElem?_cons_succ, List.getElem?_cons_succ]

/-- Do the last two elements of an even number stand in one pair and agree? -/
def endsInTwins [DecidableEq α] : List α → Bool
  | [] => false
  | [_] => false
  | [a, b] => a == b
  | _ :: _ :: l => endsInTwins l

section Twins

variable [DecidableEq α]

theorem endsInTwins_cons_cons {a b : α} {l : List α} (more : l ≠ []) :
    endsInTwins (a :: b :: l) = endsInTwins l := by
  cases l with
  | nil => exact absurd rfl more
  | cons c l => rfl

theorem endsInTwins_iff (l : List α) :
    endsInTwins l = true ↔ ∃ i a, 2 * i + 2 = l.length ∧ l[2 * i]? = some a ∧
      l[2 * i + 1]? = some a := by
  induction l using pairs.induct with
  | case1 => simp [endsInTwins]
  | case2 c => simp [endsInTwins]
  | case3 c d l ih =>
    cases l with
    | nil =>
      constructor
      · intro same
        exact ⟨0, c, rfl, rfl, congrArg some (eq_of_beq same).symm⟩
      rintro ⟨i, a, last, first, second⟩
      obtain rfl : i = 0 := by
        simp only [List.length_cons, List.length_nil] at last
        omega
      obtain rfl := Option.some.inj first
      obtain rfl := Option.some.inj second
      exact beq_self_eq_true _
    | cons e l =>
      rw [endsInTwins_cons_cons (List.cons_ne_nil e l), ih]
      constructor
      · rintro ⟨i, a, last, first, second⟩
        refine ⟨i + 1, a, ?_, first, second⟩
        simp only [List.length_cons] at last ⊢
        omega
      rintro ⟨i, a, last, first, second⟩
      cases i with
      | zero =>
        simp only [List.length_cons] at last
        omega
      | succ i =>
        refine ⟨i, a, ?_, first, second⟩
        simp only [List.length_cons] at last ⊢
        omega

/-- A list with the pairs of a list that is shorter by one ends in two equal elements. -/
theorem endsInTwins_of_pairs_eq {l l' : List α} (same : pairs l = pairs l')
    (longer : l'.length = l.length + 1) : endsInTwins l' = true := by
  have sizes := congrArg List.length same
  rw [length_pairs, length_pairs] at sizes
  obtain ⟨i, odd⟩ : ∃ i, l.length = 2 * i + 1 := ⟨l.length / 2, by omega⟩
  -- the last element of the odd list is joined with itself
  obtain ⟨a, last⟩ : ∃ a, l[2 * i]? = some a := ⟨_, List.getElem?_eq_getElem (by omega)⟩
  have pair : (pairs l)[i]? = some (a, a) := by
    rw [getElem?_pairs, show min (2 * i + 1) (l.length - 1) = 2 * i by omega]
    exact ⟨last, last⟩
  rw [same, getElem?_pairs, show min (2 * i + 1) (l'.length - 1) = 2 * i + 1 by omega] at pair
  exact (endsInTwins_iff l').mpr ⟨i, _, by omega, pair⟩

/-- The pairs tell lists apart that do not end in two equal elements. -/
theorem eq_of_pairs_eq {l l' : List α} (same : pairs l = pairs l')
    (single : endsInTwins l = false) (single' : endsInTwins l' = false) : l = l' := by
  have sizes := congrArg List.length same
  rw [length_pairs, length_pairs] at sizes
  have length : l.length = l'.length := by
    by_contra apart
    rcases Nat.lt_or_gt_of_ne apart with shorter | longer
    · rw [endsInTwins_of_pairs_eq same (by omega)] at single'
      cases single'
    · rw [endsInTwins_of_pairs_eq same.symm (by omega)] at single
      cases single
  apply List.ext_getElem? fun j => ?_
  by_cases inside : j < l.length
  · have below : j / 2 < (pairs l).length := by
      rw [length_pairs]
      omega
    obtain ⟨⟨a, b⟩, found⟩ : ∃ p, (pairs l)[j / 2]? = some p :=
      ⟨_, List.getElem?_eq_getElem below⟩
    have pair := (getElem?_pairs l _ a b).mp found
    have pair' := (getElem?_pairs l' _ a b).mp (same ▸ found)
    rw [← length] at pair'
    rcases Nat.mod_two_eq_zero_or_one j with even | odd
    · rw [show j = 2 * (j / 2) by omega, pair.1, pair'.1]
    · rw [show j = min (2 * (j / 2) + 1) (l.length - 1) by omega, pair.2, pair'.2]
  · rw [List.getElem?_eq_none (by omega), List.getElem?_eq_none (by omega)]

end Twins

/-! ## The levels above -/

/-- How many elements the level has that stands `k` levels above one of `n` elements. -/
def width (n : Nat) : Nat → Nat
  | 0 => n
  | k + 1 => (width n k + 1) / 2

theorem width_eq (n k : Nat) : width n k = (n + 2 ^ k - 1) / 2 ^ k := by
  induction k with
  | zero => simp [width]
  | succ k ih =>
    have positive := Nat.two_pow_pos k
    rw [width, ih, Nat.pow_succ, ← Nat.div_div_eq_div_mul]
    congr 1
    rw [← Nat.add_div_right _ positive]
    congr 1
    omega

theorem lt_width_iff (n k p : Nat) : p < width n k ↔ p * 2 ^ k < n := by
  induction k generalizing p with
  | zero => simp [width]
  | succ k ih =>
    have double : p * 2 ^ (k + 1) = 2 * p * 2 ^ k := by
      rw [Nat.pow_succ, ← Nat.mul_assoc, Nat.mul_right_comm, Nat.mul_comm p 2]
    rw [double, ← ih, width]
    omega

theorem width_pos {n : Nat} (positive : 0 < n) (k : Nat) : 0 < width n k := by
  induction k with
  | zero => exact positive
  | succ k ih =>
    rw [width]
    omega

theorem width_width (n k j : Nat) : width (width n k) j = width n (k + j) := by
  induction j with
  | zero => rfl
  | succ j ih =>
    rw [width, ih]
    rfl

/-- The number of levels above the list itself, up to the one with a single element. -/
def height (n : Nat) : Nat :=
  if 1 < n then height ((n + 1) / 2) + 1 else 0
termination_by n

theorem height_of_le {n : Nat} (few : n ≤ 1) : height n = 0 := by
  rw [height, if_neg (by omega)]

theorem height_of_lt {n : Nat} (many : 1 < n) : height n = height ((n + 1) / 2) + 1 := by
  rw [height, if_pos many]

theorem one_lt_width_iff (n k : Nat) : 1 < width n k ↔ k < height n := by
  induction k generalizing n with
  | zero =>
    by_cases many : 1 < n
    · rw [height_of_lt many]
      exact iff_of_true many (Nat.succ_pos _)
    · rw [height_of_le (by omega)]
      exact iff_of_false many (Nat.lt_irrefl 0)
  | succ k ih =>
    have step : width n (k + 1) = width ((n + 1) / 2) k := by
      rw [Nat.add_comm k 1, ← width_width n 1 k]
      rfl
    rw [step, ih]
    by_cases many : 1 < n
    · rw [height_of_lt many]
      omega
    · have below : height ((n + 1) / 2) = 0 := height_of_le (by omega)
      rw [below, height_of_le (by omega)]
      omega

theorem width_height {n : Nat} (positive : 0 < n) : width n (height n) = 1 := by
  have least := width_pos positive (height n)
  have not_more := (one_lt_width_iff n (height n)).not.mpr (Nat.lt_irrefl _)
  omega

section Levels

variable (f : α → α → α)

/-- The level above a list. -/
def above (l : List α) : List α := (pairs l).map fun p => f p.1 p.2

@[simp] theorem length_above (l : List α) : (above f l).length = (l.length + 1) / 2 := by
  rw [above, List.length_map, length_pairs]

/-- Level `k` of the tree over the list. -/
def level (l : List α) : Nat → List α
  | 0 => l
  | k + 1 => above f (level l k)

@[simp] theorem length_level (l : List α) (k : Nat) : (level f l k).length = width l.length k := by
  induction k with
  | zero => rfl
  | succ k ih => rw [level, length_above, ih, width]

theorem level_add (l : List α) (k j : Nat) : level f l (k + j) = level f (level f l k) j := by
  induction j with
  | zero => rfl
  | succ j ih => rw [Nat.add_succ, level, ih, level]

/-- The pairs joined below level `k`. -/
def joins (l : List α) (k : Nat) : List (α × α) :=
  (List.range k).flatMap fun j => pairs (level f l j)

variable {l : List α} {k : Nat}

theorem mem_joins {p : α × α} : p ∈ joins f l k ↔ ∃ j < k, p ∈ pairs (level f l j) := by
  rw [joins, List.mem_flatMap]
  simp only [List.mem_range]

/-- An element above the list is a join. -/
theorem mem_level_succ {a : α} (member : a ∈ level f l (k + 1)) :
    ∃ p ∈ joins f l (k + 1), a = f p.1 p.2 := by
  obtain ⟨p, inside, same⟩ := List.mem_map.mp member
  exact ⟨p, (mem_joins f).mpr ⟨k, Nat.lt_succ_self k, inside⟩, same.symm⟩

theorem getElem?_level_succ {i : Nat} {c : α} (found : (level f l (k + 1))[i]? = some c) :
    ∃ a b, (a, b) ∈ pairs (level f l k) ∧ c = f a b ∧ (level f l k)[2 * i]? = some a ∧
      (level f l k)[min (2 * i + 1) (width l.length k - 1)]? = some b := by
  rw [level, above, List.getElem?_map, Option.map_eq_some_iff] at found
  obtain ⟨⟨a, b⟩, pair, same⟩ := found
  obtain ⟨left, right⟩ := (getElem?_pairs _ i a b).mp pair
  rw [length_level] at right
  exact ⟨a, b, List.mem_of_getElem? pair, same.symm, left, right⟩

/-- All levels, one behind the other. -/
def stack (l : List α) : List α := (List.range (height l.length + 1)).flatMap (level f l)

theorem stack_of_le (few : l.length ≤ 1) : stack f l = l := by
  rw [stack, height_of_le few]
  simp [level]

theorem stack_of_lt (many : 1 < l.length) : stack f l = l ++ stack f (above f l) := by
  have levels : ∀ k, level f l (k + 1) = level f (above f l) k := by
    intro k
    rw [Nat.add_comm, level_add]
    rfl
  rw [stack, stack, height_of_lt many, length_above, List.range_succ_eq_map, List.flatMap_cons,
    List.flatMap_map]
  simp only [levels]
  rfl

/-- The element on top of a list. -/
def top (l : List α) : Option α := (level f l (height l.length)).head?

theorem top_of_lt (many : 1 < l.length) : top f l = top f (above f l) := by
  rw [top, top, height_of_lt many, length_above, Nat.add_comm, level_add]
  rfl

theorem level_height (some : l ≠ []) :
    ∃ a, level f l (height l.length) = [a] ∧ top f l = Option.some a := by
  have single : (level f l (height l.length)).length = 1 := by
    rw [length_level, width_height (List.length_pos_iff.mpr some)]
  obtain ⟨a, same⟩ := List.length_eq_one_iff.mp single
  exact ⟨a, same, by rw [top, same]; rfl⟩

theorem getLast?_stack (l : List α) : (stack f l).getLast? = top f l := by
  by_cases none : l = []
  · rw [none, stack_of_le f (by simp)]
    simp [top, height_of_le, level]
  · obtain ⟨a, single, found⟩ := level_height f none
    rw [stack, List.range_succ, List.flatMap_append, List.flatMap_singleton, single, found,
      List.getLast?_concat]

variable [DecidableEq α]

/-- No level below `k` ends in two equal elements of a pair. -/
def NoTwins (l : List α) (k : Nat) : Prop := ∀ j < k, endsInTwins (level f l j) = false

/-- A map that tells the elements of two lists apart tells the lists apart. -/
theorem eq_of_map_eq {β γ : Type*} {g : β → γ} {l l' : List β} (same : l.map g = l'.map g)
    (injective : ∀ b ∈ l, ∀ b' ∈ l', g b = g b' → b = b') : l = l' := by
  induction l generalizing l' with
  | nil => exact (List.map_eq_nil_iff.mp same.symm).symm
  | cons b l ih =>
    cases l' with
    | nil => cases same
    | cons b' l' =>
      obtain ⟨first, rest⟩ := List.cons.inj same
      have equal := injective b List.mem_cons_self b' List.mem_cons_self first
      rw [equal, ih rest fun c member c' member' =>
        injective c (List.mem_cons_of_mem b member) c' (List.mem_cons_of_mem b' member')]

/-- Lists with a level in common are equal, if no two joins collide and no level ends in twins. -/
theorem eq_of_level_eq {l' : List α} (same : level f l k = level f l' k)
    (injective : ∀ p ∈ joins f l k, ∀ q ∈ joins f l' k, f p.1 p.2 = f q.1 q.2 → p = q)
    (single : NoTwins f l k) (single' : NoTwins f l' k) : l = l' := by
  induction k with
  | zero => exact same
  | succ k ih =>
    have joined : pairs (level f l k) = pairs (level f l' k) := by
      refine eq_of_map_eq same fun p member q member' => injective p ?_ q ?_
      · exact (mem_joins f).mpr ⟨k, Nat.lt_succ_self k, member⟩
      · exact (mem_joins f).mpr ⟨k, Nat.lt_succ_self k, member'⟩
    have below : level f l k = level f l' k :=
      eq_of_pairs_eq joined (single k (Nat.lt_succ_self k)) (single' k (Nat.lt_succ_self k))
    refine ih below (fun p member q member' => injective p ?_ q ?_)
      (fun j less => single j (by omega)) (fun j less => single' j (by omega))
    · obtain ⟨j, less, inside⟩ := (mem_joins f).mp member
      exact (mem_joins f).mpr ⟨j, by omega, inside⟩
    · obtain ⟨j, less, inside⟩ := (mem_joins f).mp member'
      exact (mem_joins f).mpr ⟨j, by omega, inside⟩

end Levels

end PairedLevels
