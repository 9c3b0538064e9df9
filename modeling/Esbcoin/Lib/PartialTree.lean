import Esbcoin.Lib.PairedLevels
import Mathlib.Tactic.Ring

/-!
# Parts of a tree of paired levels

A tree over `n` elements of which only the way to some marked elements is kept; everything else is
given by what it joins to. A part is spelled by a flag for each node that is visited and a value for
each one below which nothing is kept, and read back from them (`read_eq_some_iff`).
-/

/-- A part of a tree. -/
inductive PartialTree (α : Type*)
  | stub (a : α)
  | marked (a : α)
  | last (child : PartialTree α)
  | fork (left right : PartialTree α)
deriving DecidableEq

namespace PartialTree

open PairedLevels

variable {α : Type*}

/-- The flags of the nodes, every node in front of those below it. -/
def flags : PartialTree α → List Bool
  | stub _ => [false]
  | marked _ => [true]
  | last child => true :: child.flags
  | fork left right => true :: (left.flags ++ right.flags)

/-- The values that are spelled. -/
def values : PartialTree α → List α
  | stub a => [a]
  | marked a => [a]
  | last child => child.values
  | fork left right => left.values ++ right.values

/-- The marked elements. -/
def marks : PartialTree α → List α
  | stub _ => []
  | marked a => [a]
  | last child => child.marks
  | fork left right => left.marks ++ right.marks

/-- The positions of the marked elements, for the position of the node in its level. -/
def places (pos : Nat) : PartialTree α → List Nat
  | stub _ => []
  | marked _ => [pos]
  | last child => child.places (2 * pos)
  | fork left right => left.places (2 * pos) ++ right.places (2 * pos + 1)

/-- What the tree joins to. -/
def top (f : α → α → α) : PartialTree α → α
  | stub a => a
  | marked a => a
  | last child => f (child.top f) (child.top f)
  | fork left right => f (left.top f) (right.top f)

/-- The joins on the way. -/
def joins (f : α → α → α) : PartialTree α → List (α × α)
  | stub _ => []
  | marked _ => []
  | last child => (child.top f, child.top f) :: child.joins f
  | fork left right => (left.top f, right.top f) :: (left.joins f ++ right.joins f)

/-- The tree has the shape of the part below a node of a tree over `n` elements. -/
inductive Fits (n : Nat) : Nat → Nat → PartialTree α → Prop
  | stub (height pos : Nat) (a : α) : Fits n height pos (stub a)
  | marked (pos : Nat) (a : α) : Fits n 0 pos (marked a)
  | last {height pos : Nat} {child : PartialTree α} (single : ¬ 2 * pos + 1 < width n height)
      (child_fits : Fits n height (2 * pos) child) : Fits n (height + 1) pos (last child)
  | fork {height pos : Nat} {left right : PartialTree α} (pair : 2 * pos + 1 < width n height)
      (left_fits : Fits n height (2 * pos) left)
      (right_fits : Fits n height (2 * pos + 1) right) : Fits n (height + 1) pos (fork left right)

theorem length_values_le (t : PartialTree α) : t.values.length ≤ t.flags.length := by
  induction t with
  | stub a => exact le_refl _
  | marked a => exact le_refl _
  | last child ih =>
    rw [values, flags, List.length_cons]
    omega
  | fork left right ihl ihr =>
    rw [values, flags, List.length_append, List.length_cons, List.length_append]
    omega

theorem length_flags_lt {n height pos : Nat} {t : PartialTree α} (fits : Fits n height pos t) :
    t.flags.length < 2 ^ (height + 1) := by
  induction fits with
  | stub height pos a => exact Nat.one_lt_two_pow (Nat.succ_ne_zero height)
  | marked pos a => exact Nat.one_lt_two
  | last single child_fits ih =>
    rw [flags, List.length_cons, Nat.pow_succ]
    omega
  | fork pair left_fits right_fits ihl ihr =>
    rw [flags, List.length_cons, List.length_append, Nat.pow_succ]
    omega

/-! ## Reading -/

/-- The tree that flags and values spell below a node, and what is left of them. -/
def read (n : Nat) : Nat → Nat → List Bool → List α → Option (PartialTree α × List Bool × List α)
  | _, _, [], _ => none
  | _, _, false :: _, [] => none
  | _, _, false :: flags, a :: values => some (stub a, flags, values)
  | 0, _, true :: _, [] => none
  | 0, _, true :: flags, a :: values => some (marked a, flags, values)
  | height + 1, pos, true :: flags, values =>
    (read n height (2 * pos) flags values).bind fun (left, flags, values) =>
      if 2 * pos + 1 < width n height then
        (read n height (2 * pos + 1) flags values).map fun (right, flags, values) =>
          (fork left right, flags, values)
      else some (last left, flags, values)

/-- What is spelled is read, and only that. -/
theorem read_eq_some_iff (n height pos : Nat) (bits bits' : List Bool) (hashes hashes' : List α)
    (t : PartialTree α) :
    read n height pos bits hashes = some (t, bits', hashes') ↔
      Fits n height pos t ∧ bits = t.flags ++ bits' ∧ hashes = t.values ++ hashes' := by
  constructor
  · intro found
    fun_induction read n height pos bits hashes generalizing t bits' hashes' with
    | case1 => cases found
    | case2 => cases found
    | case3 height pos flags a values =>
      obtain ⟨rfl, rfl, rfl⟩ := found
      exact ⟨.stub _ _ a, rfl, rfl⟩
    | case4 => cases found
    | case5 pos flags a values =>
      obtain ⟨rfl, rfl, rfl⟩ := found
      exact ⟨.marked _ a, rfl, rfl⟩
    | case6 height pos flags values ihl ihr =>
      rw [Option.bind_eq_some_iff] at found
      obtain ⟨⟨left, flags1, values1⟩, first, second⟩ := found
      obtain ⟨left_fits, rfl, rfl⟩ := ihl _ _ _ first
      dsimp only at second
      split at second
      · rename_i pair
        rw [Option.map_eq_some_iff] at second
        obtain ⟨⟨right, flags2, values2⟩, next, same⟩ := second
        obtain ⟨right_fits, rfl, rfl⟩ := ihr _ _ _ _ _ next
        obtain ⟨rfl, rfl, rfl⟩ := same
        refine ⟨.fork pair left_fits right_fits, ?_, ?_⟩
        · rw [PartialTree.flags, List.cons_append, List.append_assoc]
        · rw [PartialTree.values, List.append_assoc]
      · rename_i single
        obtain ⟨rfl, rfl, rfl⟩ := second
        exact ⟨.last single left_fits, rfl, rfl⟩
  · rintro ⟨fits, rfl, rfl⟩
    induction fits generalizing bits' hashes' with
    | stub height pos a => cases height <;> rfl
    | marked pos a => rfl
    | @last height pos child single child_fits ih =>
      rw [flags, values, List.cons_append, read, ih]
      simp only [Option.bind_some, if_neg single]
    | @fork height pos left right pair left_fits right_fits ihl ihr =>
      rw [flags, values, List.cons_append, List.append_assoc, List.append_assoc, read, ihl]
      simp only [Option.bind_some, if_pos pair]
      rw [ihr]
      rfl

/-! ## Pruning a list -/

section Prune

variable (f : α → α → α) (l : List α) (chosen : Nat → Bool)

/-- The positions in the list of what stands below a node. -/
def under (n height pos : Nat) : List Nat :=
  List.range' (pos * 2 ^ height) (min ((pos + 1) * 2 ^ height) n - pos * 2 ^ height)

theorem under_fork {n height pos : Nat} (pair : 2 * pos + 1 < width n height) :
    under n (height + 1) pos = under n height (2 * pos) ++ under n height (2 * pos + 1) := by
  rw [lt_width_iff] at pair
  have start : pos * 2 ^ (height + 1) = 2 * pos * 2 ^ height := by ring
  have stop : (pos + 1) * 2 ^ (height + 1) = (2 * pos + 1 + 1) * 2 ^ height := by ring
  have middle : (2 * pos + 1) * 2 ^ height = 2 * pos * 2 ^ height + 2 ^ height := by ring
  have last : (2 * pos + 1 + 1) * 2 ^ height = 2 * pos * 2 ^ height + 2 * 2 ^ height := by ring
  rw [middle] at pair
  have whole : min (2 * pos * 2 ^ height + 2 ^ height) n - 2 * pos * 2 ^ height = 2 ^ height := by
    omega
  rw [under, under, under, start, stop, middle, last, whole, List.range'_append_1]
  congr 1
  omega

theorem under_last {n height pos : Nat} (single : ¬ 2 * pos + 1 < width n height) :
    under n (height + 1) pos = under n height (2 * pos) := by
  rw [lt_width_iff] at single
  have start : pos * 2 ^ (height + 1) = 2 * pos * 2 ^ height := by ring
  have stop : (pos + 1) * 2 ^ (height + 1) = (2 * pos + 1) * 2 ^ height + 2 ^ height := by ring
  have middle : (2 * pos + 1) * 2 ^ height = 2 * pos * 2 ^ height + 2 ^ height := by ring
  rw [middle] at single stop
  rw [under, under, start, stop, middle]
  congr 1
  omega

theorem length_under_pos {n height pos : Nat} (inside : pos < width n height) :
    0 < (under n height pos).length := by
  have positive := Nat.two_pow_pos height
  rw [lt_width_iff] at inside
  have step : (pos + 1) * 2 ^ height = pos * 2 ^ height + 2 ^ height := by ring
  rw [under, List.length_range']
  omega

theorem under_zero {n pos : Nat} (inside : pos < n) : under n 0 pos = [pos] := by
  rw [under, Nat.pow_zero, Nat.mul_one, Nat.mul_one, Nat.min_eq_left (by omega),
    Nat.add_sub_cancel_left]
  rfl

theorem under_top {n : Nat} (positive : 0 < n) : under n (height n) 0 = List.range n := by
  have covers : n ≤ 2 ^ height n := by
    have single := width_height positive
    rw [width_eq] at single
    have power := Nat.two_pow_pos (height n)
    have least := (Nat.div_eq_iff power).mp single
    omega
  rw [under, Nat.zero_mul, Nat.zero_add, Nat.one_mul, Nat.min_eq_right covers, Nat.sub_zero,
    List.range_eq_range']

/-- The part of the tree over a list that leads to the chosen elements. -/
def prune (default : α) : Nat → Nat → PartialTree α
  | 0, pos => if chosen pos then marked (l.getD pos default) else stub (l.getD pos default)
  | height + 1, pos =>
    if (under l.length (height + 1) pos).any chosen then
      if 2 * pos + 1 < width l.length height then
        fork (prune default height (2 * pos)) (prune default height (2 * pos + 1))
      else last (prune default height (2 * pos))
    else stub ((level f l (height + 1)).getD pos default)

variable {f l chosen} {default : α}

theorem fits_prune (height pos : Nat) :
    Fits l.length height pos (prune f l chosen default height pos) := by
  induction height generalizing pos with
  | zero =>
    rw [prune]
    split
    · exact .marked pos _
    · exact .stub 0 pos _
  | succ height ih =>
    rw [prune]
    split
    · split
      · rename_i pair
        exact .fork pair (ih _) (ih _)
      · rename_i single
        exact .last single (ih _)
    · exact .stub _ pos _

theorem top_prune {height pos : Nat} (inside : pos < width l.length height) :
    (level f l height)[pos]? = some ((prune f l chosen default height pos).top f) := by
  induction height generalizing pos with
  | zero =>
    have here : pos < l.length := inside
    have found : l[pos]? = some (l.getD pos default) := by
      rw [List.getD_eq_getElem?_getD, List.getElem?_eq_getElem here, Option.getD_some]
    rw [prune, level, found]
    split <;> rfl
  | succ height ih =>
    have here : pos < (level f l (height + 1)).length := by
      rw [length_level]
      exact inside
    obtain ⟨c, found⟩ : ∃ c, (level f l (height + 1))[pos]? = some c :=
      ⟨_, List.getElem?_eq_getElem here⟩
    obtain ⟨a, b, -, same, left, right⟩ := getElem?_level_succ f found
    rw [width] at inside
    rw [prune, found]
    split
    · split
      · rename_i pair
        rw [Nat.min_eq_left (by omega), ih pair] at right
        rw [ih (by omega)] at left
        rw [top, same, Option.some.inj left, Option.some.inj right]
      rename_i single
      rw [Nat.min_eq_right (by omega), show width l.length height - 1 = 2 * pos by omega,
        ih (by omega)] at right
      rw [ih (by omega)] at left
      rw [top, same, ← Option.some.inj left, ← Option.some.inj right]
    · rw [top, List.getD_eq_getElem?_getD, found, Option.getD_some]

/-- The marked elements are the chosen ones, in their order. -/
theorem marks_prune {height pos : Nat} (inside : pos < width l.length height) :
    (prune f l chosen default height pos).marks =
      ((under l.length height pos).filter chosen).map fun p => l.getD p default := by
  induction height generalizing pos with
  | zero =>
    have here : pos < l.length := inside
    rw [prune, under_zero here]
    by_cases wanted : chosen pos = true
    · rw [if_pos wanted, List.filter_cons_of_pos wanted]
      rfl
    · rw [if_neg wanted, List.filter_cons_of_neg wanted]
      rfl
  | succ height ih =>
    rw [width] at inside
    rw [prune]
    by_cases some : (under l.length (height + 1) pos).any chosen = true
    · rw [if_pos some]
      by_cases pair : 2 * pos + 1 < width l.length height
      · rw [if_pos pair, marks, ih (by omega), ih pair, under_fork pair, List.filter_append,
          List.map_append]
      · rw [if_neg pair, marks, ih (by omega), under_last pair]
    · rw [if_neg some, marks]
      rw [List.any_eq_true] at some
      rw [List.filter_eq_nil_iff.mpr fun p member wanted => some ⟨p, member, wanted⟩]
      rfl

/-- Every value that is spelled has an element of its own. -/
theorem length_values_prune {height pos : Nat} (inside : pos < width l.length height) :
    (prune f l chosen default height pos).values.length ≤ (under l.length height pos).length := by
  have nonempty := length_under_pos inside
  induction height generalizing pos with
  | zero =>
    rw [prune]
    split <;> exact nonempty
  | succ height ih =>
    rw [width] at inside
    rw [prune]
    by_cases some : (under l.length (height + 1) pos).any chosen = true
    · rw [if_pos some]
      by_cases pair : 2 * pos + 1 < width l.length height
      · rw [if_pos pair, values, under_fork pair, List.length_append, List.length_append]
        have first := @ih (2 * pos) (by omega) (length_under_pos (by omega))
        have second := ih pair (length_under_pos pair)
        omega
      · rw [if_neg pair, values, under_last pair]
        exact ih (by omega) (length_under_pos (by omega))
    · rw [if_neg some]
      exact nonempty

end Prune

/-! ## A part against a whole list -/

/-- Where the element stands that a tree over `n` elements has at `p`, as many levels down, once
every last one of an odd level is written twice. -/
def shown (n : Nat) : Nat → Nat → Nat
  | 0, _ => 0
  | depth + 1, p =>
    min (2 * shown n depth (p / 2) + p % 2) (width n (height n - (depth + 1)) - 1)

section Against

variable {f : α → α → α} {l : List α} {m k k' d pos : Nat} {t : PartialTree α}

/-- A join in the place of a node has the two elements below it as its parts. -/
theorem getElem?_shown {a b : α} (depth : d + (k' + 1) = height l.length)
    (found : (level f l (k' + 1))[shown l.length d pos]? = some (f a b))
    (injective : ∀ q ∈ PairedLevels.joins f l (height l.length), f a b = f q.1 q.2 → (a, b) = q) :
    (level f l k')[shown l.length (d + 1) (2 * pos)]? = some a ∧
      (level f l k')[shown l.length (d + 1) (2 * pos + 1)]? = some b := by
  obtain ⟨a', b', pair, same, left, right⟩ := getElem?_level_succ f found
  have member : (a', b') ∈ PairedLevels.joins f l (height l.length) :=
    (mem_joins f).mpr ⟨k', by omega, pair⟩
  obtain ⟨rfl, rfl⟩ := Prod.mk.inj (injective _ member same)
  obtain ⟨inside, -⟩ := List.getElem?_eq_some_iff.mp left
  rw [length_level] at inside
  have level_eq : height l.length - (d + 1) = k' := by omega
  constructor
  · rw [shown, level_eq, show 2 * pos / 2 = pos by omega, show 2 * pos % 2 = 0 by omega,
      Nat.add_zero, Nat.min_eq_left (by omega)]
    exact left
  · rw [shown, level_eq, show (2 * pos + 1) / 2 = pos by omega,
      show (2 * pos + 1) % 2 = 1 by omega]
    exact right

/-- A part that joins to an element of a list as high as itself, or higher, marks what the list
shows at its places. -/
theorem marks_eq_shown (fits : Fits m k pos t) (depth : d + k' = height l.length) (le : k ≤ k')
    (found : (level f l k')[shown l.length d pos]? = some (t.top f))
    (injective : ∀ p ∈ t.joins f, ∀ q ∈ PairedLevels.joins f l (height l.length),
      f p.1 p.2 = f q.1 q.2 → p = q) :
    t.marks.map some =
      (t.places pos).map fun p => (level f l (k' - k))[shown l.length (d + k) p]? := by
  induction fits generalizing d k' with
  | stub height pos a => rfl
  | marked pos a =>
    rw [marks, places, List.map_singleton, List.map_singleton, Nat.sub_zero, Nat.add_zero, found]
    rfl
  | @last height pos child single child_fits ih =>
    obtain ⟨k', rfl⟩ : ∃ below, k' = below + 1 := ⟨k' - 1, by omega⟩
    have children := getElem?_shown depth found (injective _ List.mem_cons_self)
    have rest := ih (d := d + 1) (by omega) (by omega) children.1
      fun p member => injective p (List.mem_cons_of_mem _ member)
    rw [marks, places, rest, Nat.add_sub_add_right, Nat.add_right_comm, ← Nat.add_assoc]
  | @fork height pos left right pair left_fits right_fits ihl ihr =>
    obtain ⟨k', rfl⟩ : ∃ below, k' = below + 1 := ⟨k' - 1, by omega⟩
    have children := getElem?_shown depth found (injective _ List.mem_cons_self)
    have first := ihl (d := d + 1) (by omega) (by omega) children.1 fun p member =>
      injective p (List.mem_cons_of_mem _ (List.mem_append_left _ member))
    have second := ihr (d := d + 1) (by omega) (by omega) children.2 fun p member =>
      injective p (List.mem_cons_of_mem _ (List.mem_append_right _ member))
    rw [marks, places, List.map_append, List.map_append, first, second, Nat.add_sub_add_right,
      Nat.add_right_comm, ← Nat.add_assoc]

/-- A part that reaches below the list it is held against marks nothing there. -/
theorem marks_eq_nil (fits : Fits m k pos t) (depth : d + k' = height l.length) (lt : k' < k)
    (found : (level f l k')[shown l.length d pos]? = some (t.top f))
    (injective : ∀ p ∈ t.joins f, ∀ q ∈ PairedLevels.joins f l (height l.length),
      f p.1 p.2 = f q.1 q.2 → p = q)
    (leaves : ∀ a ∈ l, ∀ p ∈ t.joins f, f p.1 p.2 ≠ a) : t.marks = [] := by
  induction fits generalizing d k' with
  | stub height pos a => rfl
  | marked pos a => omega
  | @last height pos child single child_fits ih =>
    cases k' with
    | zero => exact absurd rfl (leaves _ (List.mem_of_getElem? found) _ List.mem_cons_self)
    | succ k' =>
      have children := getElem?_shown depth found (injective _ List.mem_cons_self)
      exact ih (d := d + 1) (by omega) (by omega) children.1
        (fun p member => injective p (List.mem_cons_of_mem _ member))
        fun a inside p member => leaves a inside p (List.mem_cons_of_mem _ member)
  | @fork height pos left right pair left_fits right_fits ihl ihr =>
    cases k' with
    | zero => exact absurd rfl (leaves _ (List.mem_of_getElem? found) _ List.mem_cons_self)
    | succ k' =>
      have children := getElem?_shown depth found (injective _ List.mem_cons_self)
      have first := ihl (d := d + 1) (by omega) (by omega) children.1
        (fun p member => injective p (List.mem_cons_of_mem _ (List.mem_append_left _ member)))
        fun a inside p member =>
          leaves a inside p (List.mem_cons_of_mem _ (List.mem_append_left _ member))
      have second := ihr (d := d + 1) (by omega) (by omega) children.2
        (fun p member => injective p (List.mem_cons_of_mem _ (List.mem_append_right _ member)))
        fun a inside p member =>
          leaves a inside p (List.mem_cons_of_mem _ (List.mem_append_right _ member))
      rw [marks, first, second, List.append_nil]

end Against

end PartialTree
