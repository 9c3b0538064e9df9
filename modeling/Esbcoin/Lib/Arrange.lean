import Mathlib.Data.List.Induction
import Mathlib.Data.List.Nodup
import Mathlib.Data.List.Perm.Basic
import Mathlib.Data.List.Sort
import Mathlib.Logic.Equiv.Basic

/-!
# Sorting by a key that does not separate

A sort that compares keys only puts elements in the order of falling keys, and leaves open how
elements with one key lie. An `Arrangement` is any such order of a list. `Sorter` is a sort whose
outcome depends on the keys alone.
-/

universe u v

namespace Arrange

variable {α : Type u} {β : Type v}

/-- `r` is `l` in the order of falling keys. -/
structure Arrangement (key : α → Int) (l r : List α) : Prop where
  perm : r.Perm l
  falling : r.Pairwise (fun a b => key b ≤ key a)

/-- A sort of keys: the positions of the keys, from the highest key down. -/
structure Sorter where
  order : List Int → List Nat
  perm : ∀ keys, (order keys).Perm (List.range keys.length)
  falling : ∀ keys, ((order keys).map (fun i => keys.getD i 0)).Pairwise (fun a b => b ≤ a)

/-- How many keys are higher than `k`. -/
def above (key : α → Int) (l : List α) (k : Int) : Nat := l.countP (fun a => decide (k < key a))

/-- How many keys are not lower than `k`. -/
def atLeast (key : α → Int) (l : List α) (k : Int) : Nat := l.countP (fun a => decide (k ≤ key a))

variable {key : α → Int} {l r : List α} {x y : α}

/-! ## Places -/

theorem above_perm (same : r.Perm l) (k : Int) : above key r k = above key l k :=
  same.countP_eq _

theorem atLeast_perm (same : r.Perm l) (k : Int) : atLeast key r k = atLeast key l k :=
  same.countP_eq _

theorem atLeast_le_length (k : Int) : atLeast key l k ≤ l.length := List.countP_le_length

/-- A sort can put `x` at place `i`. -/
def MayStand (key : α → Int) (l : List α) (i : Nat) (x : α) : Prop :=
  above key l (key x) ≤ i ∧ i < atLeast key l (key x)

theorem atLeast_le_above {k k' : Int} (lower : k < k') : atLeast key l k' ≤ above key l k := by
  refine List.countP_mono_left fun a _ least => ?_
  simp only [decide_eq_true_eq] at *
  omega

/-- Elements that can stand at one place have one key. -/
theorem MayStand.key_eq {i : Nat} (hx : MayStand key l i x) (hy : MayStand key l i y) :
    key x = key y := by
  obtain ⟨low, high⟩ := hx
  obtain ⟨low', high'⟩ := hy
  rcases lt_trichotomy (key x) (key y) with lower | equal | higher
  · have : atLeast key l (key y) ≤ above key l (key x) := atLeast_le_above lower
    omega
  · exact equal
  · have : atLeast key l (key x) ≤ above key l (key y) := atLeast_le_above higher
    omega

theorem above_lt_atLeast (member : x ∈ l) : above key l (key x) < atLeast key l (key x) := by
  induction l with
  | nil => cases member
  | cons a l ih =>
    have mono : above key l (key x) ≤ atLeast key l (key x) := by
      refine List.countP_mono_left fun a _ least => ?_
      simp only [decide_eq_true_eq] at *
      omega
    simp only [above, atLeast, List.countP_cons, decide_eq_true_eq] at *
    rcases List.mem_cons.mp member with rfl | inside
    · simp only [lt_irrefl, le_refl, if_true, if_false]
      omega
    · have := ih inside
      split <;> split <;> omega

theorem mayStand_above (member : x ∈ l) : MayStand key l (above key l (key x)) x :=
  ⟨le_refl _, above_lt_atLeast member⟩

theorem mayStand_last (member : x ∈ l) : MayStand key l (atLeast key l (key x) - 1) x := by
  have : above key l (key x) < atLeast key l (key x) := above_lt_atLeast member
  exact ⟨by omega, by omega⟩

theorem key_le_of_mem_drop (falling : r.Pairwise (fun a b => key b ≤ key a)) {i : Nat}
    (here : r[i]? = some x) : ∀ a ∈ r.drop i, key a ≤ key x := by
  obtain ⟨within, rfl⟩ := List.getElem?_eq_some_iff.mp here
  intro a member
  obtain ⟨j, inDrop, rfl⟩ := List.getElem_of_mem member
  rw [List.length_drop] at inDrop
  rw [List.getElem_drop]
  rcases Nat.eq_zero_or_pos j with rfl | positive
  · exact le_refl _
  · exact List.pairwise_iff_getElem.mp falling i (i + j) within (by omega) (by omega)

theorem key_ge_of_mem_take (falling : r.Pairwise (fun a b => key b ≤ key a)) {i : Nat}
    (here : r[i]? = some x) : ∀ a ∈ r.take (i + 1), key x ≤ key a := by
  obtain ⟨within, rfl⟩ := List.getElem?_eq_some_iff.mp here
  intro a member
  obtain ⟨j, inTake, rfl⟩ := List.getElem_of_mem member
  rw [List.length_take] at inTake
  rw [List.getElem_take]
  rcases Nat.lt_or_ge j i with before | equal
  · exact List.pairwise_iff_getElem.mp falling j i (by omega) within before
  · obtain rfl : j = i := by omega
    exact le_refl _

/-- An element stands below those above it, and among those not below it. -/
theorem Arrangement.place_bounds (arranged : Arrangement key l r) {i : Nat}
    (here : r[i]? = some x) : MayStand key l i x := by
  unfold MayStand
  rw [← above_perm arranged.perm, ← atLeast_perm arranged.perm]
  have within := (List.getElem?_eq_some_iff.mp here).1
  have after := key_le_of_mem_drop arranged.falling here
  have before := key_ge_of_mem_take arranged.falling here
  generalize key x = k at after before
  constructor
  · have none : (r.drop i).countP (fun a => decide (k < key a)) = 0 := by
      refine List.countP_eq_zero.mpr fun a member => ?_
      rw [decide_eq_true_eq, not_lt]
      exact after a member
    calc above key r k
        = (r.take i ++ r.drop i).countP (fun a => decide (k < key a)) := by
          rw [List.take_append_drop]
          rfl
      _ = (r.take i).countP (fun a => decide (k < key a)) := by
          rw [List.countP_append, none, Nat.add_zero]
      _ ≤ i := List.countP_le_length.trans (List.length_take_le i r)
  · have all : (r.take (i + 1)).countP (fun a => decide (k ≤ key a)) = i + 1 := by
      have full : (r.take (i + 1)).length = i + 1 := by
        rw [List.length_take]
        omega
      have every := List.countP_eq_length.mpr fun a member =>
        decide_eq_true (before a member)
      exact every.trans full
    have part : (r.take (i + 1)).countP (fun a => decide (k ≤ key a)) ≤ atLeast key r k :=
      (List.take_sublist (i + 1) r).countP_le
    omega

theorem place_unique (distinct : l.Nodup) {i j : Nat} (here : l[i]? = some x)
    (there : l[j]? = some x) : i = j :=
  (List.getElem?_inj (List.getElem?_eq_some_iff.mp here).1 distinct).mp (here.trans there.symm)

section Swap

variable [DecidableEq α]

theorem swap_cases (x y a : α) :
    (a = x ∧ Equiv.swap x y a = y) ∨ (a = y ∧ Equiv.swap x y a = x) ∨ Equiv.swap x y a = a := by
  by_cases first : a = x
  · exact Or.inl ⟨first, first ▸ Equiv.swap_apply_left a y⟩
  · by_cases second : a = y
    · exact Or.inr (Or.inl ⟨second, second ▸ Equiv.swap_apply_right x a⟩)
    · exact Or.inr (Or.inr (Equiv.swap_apply_of_ne_of_ne first second))

theorem swap_mem (hx : x ∈ l) (hy : y ∈ l) {a : α} (member : a ∈ l) :
    Equiv.swap x y a ∈ l := by
  rcases swap_cases x y a with ⟨-, swapped⟩ | ⟨-, swapped⟩ | swapped
  · rwa [swapped]
  · rwa [swapped]
  · rwa [swapped]

section

variable (arranged : Arrangement key l r)
include arranged

/-- Elements of one key change places. -/
theorem Arrangement.swap (distinct : l.Nodup) (hx : x ∈ l) (hy : y ∈ l) (same : key x = key y) :
    Arrangement key l (r.map (Equiv.swap x y)) where
  perm := by
    have distinct' : r.Nodup := arranged.perm.nodup_iff.mpr distinct
    refine (List.perm_ext_iff_of_nodup (distinct'.map (Equiv.swap x y).injective) distinct).mpr
      fun a => ?_
    rw [List.mem_map]
    constructor
    · rintro ⟨b, member, rfl⟩
      exact swap_mem hx hy (arranged.perm.subset member)
    · intro inside
      exact ⟨Equiv.swap x y a, arranged.perm.symm.subset (swap_mem hx hy inside),
        Equiv.swap_apply_self x y a⟩
  falling := by
    have keeps : ∀ a, key (Equiv.swap x y a) = key a := by
      intro a
      rcases swap_cases x y a with ⟨rfl, swapped⟩ | ⟨rfl, swapped⟩ | swapped
      · rw [swapped, same]
      · rw [swapped, same]
      · rw [swapped]
    rw [List.pairwise_map]
    exact arranged.falling.imp fun {a b} le => by rwa [keeps, keeps]

/-- Every place between the elements above `x` and those below it is one where `x` can stand. -/
theorem Arrangement.exists_at (distinct : l.Nodup) (member : x ∈ l) {i : Nat}
    (may : MayStand key l i x) :
    ∃ r', Arrangement key l r' ∧ r'[i]? = some x := by
  have within : i < r.length := by
    rw [arranged.perm.length_eq]
    exact lt_of_lt_of_le may.2 (atLeast_le_length _)
  obtain ⟨z, here⟩ : ∃ z, r[i]? = some z := ⟨_, List.getElem?_eq_getElem within⟩
  have same : key x = key z := may.key_eq (arranged.place_bounds here)
  have memberZ : z ∈ l := arranged.perm.subset (List.mem_of_getElem? here)
  refine ⟨_, arranged.swap distinct member memberZ same, ?_⟩
  rw [List.getElem?_map, here]
  exact congrArg some (Equiv.swap_apply_right x z)

/-- Which element stands at a place is the same for every arrangement exactly if only one can. -/
theorem place_constant_iff (distinct : l.Nodup) {i : Nat} :
    (∀ r₁ r₂, Arrangement key l r₁ → Arrangement key l r₂ → r₁[i]? = r₂[i]?) ↔
      ∀ x ∈ l, ∀ y ∈ l, MayStand key l i x → MayStand key l i y → x = y := by
  constructor
  · intro constant x hx y hy mayX mayY
    obtain ⟨r₁, arranged₁, here⟩ := arranged.exists_at distinct hx mayX
    obtain ⟨r₂, arranged₂, there⟩ := arranged.exists_at distinct hy mayY
    rw [constant r₁ r₂ arranged₁ arranged₂, there] at here
    exact (Option.some.inj here).symm
  intro unique r₁ r₂ arranged₁ arranged₂
  rcases Nat.lt_or_ge i l.length with within | beyond
  · have here := List.getElem?_eq_getElem (arranged₁.perm.length_eq ▸ within)
    have there := List.getElem?_eq_getElem (arranged₂.perm.length_eq ▸ within)
    rw [here, there]
    exact congrArg some (unique _ (arranged₁.perm.subset (List.mem_of_getElem? here)) _
      (arranged₂.perm.subset (List.mem_of_getElem? there)) (arranged₁.place_bounds here)
      (arranged₂.place_bounds there))
  · rw [List.getElem?_eq_none (arranged₁.perm.length_eq ▸ beyond),
      List.getElem?_eq_none (arranged₂.perm.length_eq ▸ beyond)]

/-- The place of an element is the same for every arrangement exactly if no other element has
its key. -/
theorem idxOf_constant_iff (distinct : l.Nodup) (member : x ∈ l) :
    (∀ r₁ r₂, Arrangement key l r₁ → Arrangement key l r₂ → r₁.idxOf x = r₂.idxOf x) ↔
      ∀ y ∈ l, key y = key x → y = x := by
  have stands : ∀ {r' : List α}, Arrangement key l r' → r'[r'.idxOf x]? = some x := fun arranged' =>
    List.getElem?_idxOf (arranged'.perm.symm.subset member)
  constructor
  · intro constant y hy same
    obtain ⟨r₁, arranged₁, here⟩ := arranged.exists_at distinct member (mayStand_above member)
    obtain ⟨r₂, arranged₂, there⟩ := arranged.exists_at distinct hy (mayStand_above hy)
    have first := place_unique (arranged₁.perm.nodup_iff.mpr distinct) here (stands arranged₁)
    have second := stands arranged₂
    rw [← constant r₁ r₂ arranged₁ arranged₂, ← first, ← same, there] at second
    exact Option.some.inj second
  intro unique r₁ r₂ arranged₁ arranged₂
  have within : r₁.idxOf x < r₂.length := by
    have := (List.getElem?_eq_some_iff.mp (stands arranged₁)).1
    rwa [arranged₁.perm.length_eq, ← arranged₂.perm.length_eq] at this
  have there := List.getElem?_eq_getElem within
  have same := (arranged₂.place_bounds there).key_eq (arranged₁.place_bounds (stands arranged₁))
  rw [unique _ (arranged₂.perm.subset (List.mem_of_getElem? there)) same] at there
  exact place_unique (arranged₂.perm.nodup_iff.mpr distinct) there (stands arranged₂)

end

end Swap

/-! ## Sorters -/

namespace Sorter

/-- The elements in the order of their keys. -/
def sort (sorter : Sorter) (key : α → Int) (l : List α) : List α :=
  (sorter.order (l.map key)).filterMap (fun i => l[i]?)

variable (sorter : Sorter)

theorem within (key : α → Int) (l : List α) :
    ∀ i ∈ sorter.order (l.map key), i < l.length := by
  intro i member
  have := (sorter.perm (l.map key)).subset member
  rwa [List.mem_range, List.length_map] at this

/-- Sorting commutes with a function that keeps the keys. -/
theorem sort_map {key' : β → Int} (f : α → β) (keeps : ∀ a ∈ l, key' (f a) = key a) :
    sorter.sort key' (l.map f) = (sorter.sort key l).map f := by
  have keys : (l.map f).map key' = l.map key := by
    rw [List.map_map]
    exact List.map_congr_left keeps
  unfold sort
  rw [keys, List.map_filterMap]
  refine List.filterMap_congr fun i _ => ?_
  rw [List.getElem?_map]

theorem map_key_read {positions : List Nat} (within : ∀ i ∈ positions, i < l.length) :
    (positions.filterMap (fun i => l[i]?)).map key =
      positions.map (fun i => (l.map key).getD i 0) := by
  have each : ∀ i ∈ positions, l[i]?.map key = some ((l.map key).getD i 0) := by
    intro i member
    have here := within i member
    simp [here]
  rw [List.map_filterMap, List.filterMap_congr each]
  exact congrFun List.filterMap_eq_map' positions

theorem filterMap_range_getElem? (l : List α) :
    (List.range l.length).filterMap (fun i => l[i]?) = l := by
  induction l with
  | nil => rfl
  | cons a l ih =>
    rw [List.length_cons, List.range_succ_eq_map, List.filterMap_cons]
    simp only [List.getElem?_cons_zero, List.filterMap_map]
    exact congrArg (a :: ·) ih

theorem arrangement (key : α → Int) (l : List α) : Arrangement key l (sorter.sort key l) where
  perm := by
    have all := (sorter.perm (l.map key)).filterMap (fun i => l[i]?)
    rw [List.length_map, filterMap_range_getElem?] at all
    exact all
  falling := by
    have keys := sorter.falling (l.map key)
    rwa [← map_key_read (sorter.within key l), List.pairwise_map] at keys

/-- Any list can be read off at the positions of a sorted list. -/
theorem exists_read_eq {positions : List Nat} (r : List α)
    (perm : positions.Perm (List.range r.length)) :
    ∃ l : List α, l.length = r.length ∧ positions.filterMap (fun i => l[i]?) = r := by
  have full : positions.length = r.length := by rw [perm.length_eq, List.length_range]
  have inside : ∀ i, i < r.length → positions.idxOf i < r.length := by
    intro i within
    rw [← full]
    exact List.idxOf_lt_length_of_mem (perm.symm.subset (List.mem_range.mpr within))
  refine ⟨List.ofFn fun i : Fin r.length => r.get ⟨positions.idxOf i.val, inside i i.isLt⟩,
    List.length_ofFn, ?_⟩
  have distinct : positions.Nodup := perm.nodup_iff.mpr List.nodup_range
  have read : positions.map (fun i => (List.ofFn fun i : Fin r.length =>
      r.get ⟨positions.idxOf i.val, inside i i.isLt⟩)[i]?) = r.map some := by
    refine List.ext_getElem (by rw [List.length_map, List.length_map, full]) fun j hj _ => ?_
    rw [List.length_map] at hj
    have within : positions[j] < r.length :=
      List.mem_range.mp (perm.subset (List.getElem_mem hj))
    rw [List.getElem_map, List.getElem_map, List.getElem?_ofFn, dif_pos within]
    simp only [distinct.idxOf_getElem, List.get_eq_getElem]
  have all := congrArg (List.filterMap id) read
  rw [List.filterMap_map, List.filterMap_map] at all
  exact all.trans (List.filterMap_some)

/-- Sorting some order of a list gives any arrangement of it. -/
theorem exists_perm_sort_eq (arranged : Arrangement key l r) :
    ∃ l', l'.Perm l ∧ sorter.sort key l' = r := by
  have arranged' := sorter.arrangement key l
  have perm := sorter.perm (l.map key)
  rw [List.length_map, ← arranged.perm.length_eq] at perm
  obtain ⟨l', length, read⟩ := exists_read_eq r perm
  have same : l'.Perm r := by
    have all := perm.filterMap (fun i => l'[i]?)
    rw [← length, filterMap_range_getElem?, read] at all
    exact all.symm
  have keys : l'.map key = l.map key := by
    have within : ∀ i ∈ sorter.order (l.map key), i < l'.length := by
      rw [length]
      exact fun i member => List.mem_range.mp (perm.subset member)
    have sorted : r.map key = (sorter.sort key l).map key := by
      refine @List.Perm.eq_of_pairwise _ (fun a b => b ≤ a) _ _ (fun a b _ _ ab ba => ?_)
        (List.pairwise_map.mpr arranged.falling) (List.pairwise_map.mpr arranged'.falling)
        ((arranged.perm.trans arranged'.perm.symm).map key)
      omega
    rw [← read, map_key_read within, sort, map_key_read (sorter.within key l),
      List.map_inj_left] at sorted
    refine List.ext_getElem (by simp [length, arranged.perm.length_eq]) fun i hi hi' => ?_
    rw [List.length_map, length] at hi
    have := sorted i (perm.symm.subset (List.mem_range.mpr hi))
    rwa [List.getD_eq_getElem?_getD, List.getD_eq_getElem?_getD,
      List.getElem?_eq_getElem (by rwa [List.length_map, length]),
      List.getElem?_eq_getElem hi'] at this
  refine ⟨l', same.trans arranged.perm, ?_⟩
  unfold sort
  rw [keys]
  exact read

/-- A function of the sorted list does not depend on the order of the list exactly if it is
constant on arrangements. -/
theorem constant_iff {γ : Type v} (f : List α → γ) :
    (∀ l', l'.Perm l → f (sorter.sort key l') = f (sorter.sort key l)) ↔
      ∀ r₁ r₂, Arrangement key l r₁ → Arrangement key l r₂ → f r₁ = f r₂ := by
  constructor
  · intro free r₁ r₂ arranged₁ arranged₂
    obtain ⟨l₁, same₁, rfl⟩ := sorter.exists_perm_sort_eq arranged₁
    obtain ⟨l₂, same₂, rfl⟩ := sorter.exists_perm_sort_eq arranged₂
    rw [free l₁ same₁, free l₂ same₂]
  · intro constant l' same
    obtain ⟨perm, falling⟩ := sorter.arrangement key l'
    exact constant _ _ ⟨perm.trans same, falling⟩ (sorter.arrangement key l)

/-- Insertion sort, which keeps the order of equal keys. -/
def stable : Sorter where
  order keys := (List.range keys.length).insertionSort (fun i j => keys.getD j 0 ≤ keys.getD i 0)
  perm keys := List.perm_insertionSort _ _
  falling keys := by
    rw [List.pairwise_map]
    have total : Std.Total (fun i j : Nat => keys.getD j 0 ≤ keys.getD i 0) :=
      ⟨fun i j => le_total (keys.getD j 0) (keys.getD i 0)⟩
    have trans : IsTrans Nat (fun i j => keys.getD j 0 ≤ keys.getD i 0) :=
      ⟨fun i j k first second => le_trans second first⟩
    exact List.pairwise_insertionSort _ _

example : stable.sort Prod.fst [((1 : Int), 'a'), (3, 'b'), (1, 'c')] =
    [(3, 'b'), (1, 'a'), (1, 'c')] := by decide

end Sorter

/-! ## The best of the first places -/

section Best

variable {score : α → Nat} {bound : Nat}

/-- One turn of a search for the first element with the highest score above zero. -/
def better (score : α → Nat) (found : Nat × Option α) (a : α) : Nat × Option α :=
  if found.1 < score a then (score a, some a) else found

/-- The first element with the highest score above zero. -/
def best (score : α → Nat) (l : List α) : Option α := (l.foldl (better score) (0, none)).2

/-- `x` is ahead of all others of the list. -/
def Leads (score : α → Nat) (l : List α) (x : α) : Prop :=
  0 < score x ∧ ∃ i : Nat, l[i]? = some x ∧
    ∀ (j : Nat) y, l[j]? = some y → score y < score x ∨ (score y = score x ∧ i ≤ j)

theorem getElem?_concat_cases {a : α} {j : Nat} (there : (l ++ [a])[j]? = some y) :
    l[j]? = some y ∨ (j = l.length ∧ y = a) := by
  rcases Nat.lt_or_ge j l.length with inside | last
  · rw [List.getElem?_append_left inside] at there
    exact Or.inl there
  rw [List.getElem?_append_right last, List.getElem?_singleton] at there
  split at there
  · exact Or.inr ⟨by omega, (Option.some.inj there).symm⟩
  · cases there

theorem foldl_better_cases (score : α → Nat) (l : List α) :
    (l.foldl (better score) (0, none) = (0, none) ∧ ∀ y ∈ l, score y = 0) ∨
      ∃ x, l.foldl (better score) (0, none) = (score x, some x) ∧ Leads score l x := by
  induction l using List.reverseRecOn with
  | nil => exact Or.inl ⟨rfl, fun _ member => nomatch member⟩
  | append_singleton l a ih =>
    rw [List.foldl_append, List.foldl_cons, List.foldl_nil]
    rcases ih with ⟨fold, zero⟩ | ⟨x, fold, positive, i, here, ahead⟩
    · rw [fold, better]
      by_cases higher : 0 < score a
      · refine Or.inr ⟨a, if_pos higher, higher, l.length, List.getElem?_concat_length, ?_⟩
        intro j y there
        rcases getElem?_concat_cases there with inside | ⟨rfl, rfl⟩
        · exact Or.inl (by rw [zero y (List.mem_of_getElem? inside)]; exact higher)
        · exact Or.inr ⟨rfl, le_refl _⟩
      refine Or.inl ⟨if_neg higher, fun y member => ?_⟩
      rcases List.mem_append.mp member with inside | last
      · exact zero y inside
      · rw [List.mem_singleton.mp last]
        omega
    have within := (List.getElem?_eq_some_iff.mp here).1
    rw [fold, better]
    by_cases higher : score x < score a
    · refine Or.inr ⟨a, if_pos higher, by omega, l.length, List.getElem?_concat_length, ?_⟩
      intro j y there
      rcases getElem?_concat_cases there with inside | ⟨rfl, rfl⟩
      · have := ahead j y inside
        omega
      · exact Or.inr ⟨rfl, le_refl _⟩
    refine Or.inr ⟨x, if_neg higher, positive, i, ?_, ?_⟩
    · rw [List.getElem?_append_left within, here]
    intro j y there
    rcases getElem?_concat_cases there with inside | ⟨rfl, rfl⟩
    · exact ahead j y inside
    · omega

theorem best_eq_none_iff : best score l = none ↔ ∀ y ∈ l, score y = 0 := by
  unfold best
  rcases foldl_better_cases score l with ⟨fold, zero⟩ | ⟨x, fold, positive, i, here, -⟩
  · rw [fold]
    exact ⟨fun _ => zero, fun _ => rfl⟩
  rw [fold]
  constructor
  · intro none
    cases none
  · intro zero
    have := zero x (List.mem_of_getElem? here)
    omega

theorem best_eq_some_iff : best score l = some x ↔ Leads score l x := by
  unfold best
  rcases foldl_better_cases score l with ⟨fold, zero⟩ | ⟨z, fold, leads⟩
  · rw [fold]
    constructor
    · intro none
      cases none
    · rintro ⟨positive, i, here, -⟩
      have := zero x (List.mem_of_getElem? here)
      omega
  rw [fold]
  constructor
  · intro same
    obtain rfl := Option.some.inj same
    exact leads
  rintro ⟨-, i, here, ahead⟩
  obtain ⟨-, j, there, ahead'⟩ := leads
  have first := ahead j z there
  have second := ahead' i x here
  obtain rfl : i = j := by omega
  exact there.symm.trans here

/-- `x` is among the first `bound` in every arrangement and ahead of all that can be there. -/
def Settled (key : α → Int) (score : α → Nat) (bound : Nat) (l : List α) (x : α) : Prop :=
  0 < score x ∧ atLeast key l (key x) ≤ bound ∧
    ∀ y ∈ l, above key l (key y) < bound →
      y = x ∨ score y < score x ∨ (score y = score x ∧ key y < key x)

theorem getElem?_take_eq_some_iff {i : Nat} :
    (r.take bound)[i]? = some x ↔ i < bound ∧ r[i]? = some x := by
  rw [List.getElem?_take]
  split
  · simp [*]
  · simp [*]

theorem Arrangement.best_eq_none (arranged : Arrangement key l r)
    (zero : ∀ y ∈ l, above key l (key y) < bound → score y = 0) :
    best score (r.take bound) = none := by
  refine best_eq_none_iff.mpr fun y member => ?_
  obtain ⟨i, here⟩ := List.getElem?_of_mem member
  obtain ⟨within, here⟩ := getElem?_take_eq_some_iff.mp here
  obtain ⟨low, high⟩ := arranged.place_bounds here
  exact zero y (arranged.perm.subset (List.mem_of_getElem? here)) (by omega)

theorem Arrangement.best_eq_some (arranged : Arrangement key l r) (distinct : l.Nodup)
    (member : x ∈ l)
    (settled : Settled key score bound l x) : best score (r.take bound) = some x := by
  obtain ⟨positive, sure, ahead⟩ := settled
  obtain ⟨i, here⟩ := List.getElem?_of_mem (arranged.perm.symm.subset member)
  obtain ⟨low, high⟩ := arranged.place_bounds here
  refine best_eq_some_iff.mpr ⟨positive, i, getElem?_take_eq_some_iff.mpr ⟨by omega, here⟩, ?_⟩
  intro j y there
  obtain ⟨within, there⟩ := getElem?_take_eq_some_iff.mp there
  obtain ⟨low', high'⟩ := arranged.place_bounds there
  rcases ahead y (arranged.perm.subset (List.mem_of_getElem? there)) (by omega) with
    rfl | lower | ⟨equal, behind⟩
  · refine Or.inr ⟨rfl, ?_⟩
    exact le_of_eq (place_unique (arranged.perm.nodup_iff.mpr distinct) here there)
  · exact Or.inl lower
  · have : atLeast key l (key x) ≤ above key l (key y) := atLeast_le_above behind
    exact Or.inr ⟨equal, by omega⟩

/-- The best of the first places is the same for every arrangement exactly if nothing that can
be there has a score, or one element is settled. -/
theorem best_constant_iff [DecidableEq α] (arranged : Arrangement key l r) (distinct : l.Nodup) :
    (∀ r₁ r₂, Arrangement key l r₁ → Arrangement key l r₂ →
        best score (r₁.take bound) = best score (r₂.take bound)) ↔
      (∀ y ∈ l, above key l (key y) < bound → score y = 0) ∨
        ∃ x ∈ l, Settled key score bound l x := by
  constructor
  · intro constant
    have reach : ∀ y ∈ l, above key l (key y) < bound → ∃ r', Arrangement key l r' ∧
        (r'.take bound)[above key l (key y)]? = some y := by
      intro y member low
      obtain ⟨r', arranged', there⟩ := arranged.exists_at distinct member (mayStand_above member)
      exact ⟨r', arranged', getElem?_take_eq_some_iff.mpr ⟨low, there⟩⟩
    cases found : best score (r.take bound) with
    | none =>
      refine Or.inl fun y member low => ?_
      obtain ⟨r', arranged', there⟩ := reach y member low
      rw [constant r r' arranged arranged', best_eq_none_iff] at found
      exact found y (List.mem_of_getElem? there)
    | some x =>
      have always : ∀ r', Arrangement key l r' → Leads score (r'.take bound) x := by
        intro r' arranged'
        exact best_eq_some_iff.mp ((constant r' r arranged' arranged).trans found)
      obtain ⟨positive, i, here, -⟩ := always r arranged
      have memberX : x ∈ l :=
        arranged.perm.subset (List.mem_of_getElem? (getElem?_take_eq_some_iff.mp here).2)
      have sure : atLeast key l (key x) ≤ bound := by
        by_contra more
        obtain ⟨r', arranged', there⟩ := arranged.exists_at distinct memberX
          (mayStand_last memberX)
        obtain ⟨-, j, there', -⟩ := always r' arranged'
        obtain ⟨within, there'⟩ := getElem?_take_eq_some_iff.mp there'
        have := place_unique (arranged'.perm.nodup_iff.mpr distinct) there there'
        omega
      refine Or.inr ⟨x, memberX, positive, sure, fun y member low => ?_⟩
      obtain ⟨r', arranged', there⟩ := reach y member low
      obtain ⟨-, j, there', ahead⟩ := always r' arranged'
      rcases ahead _ y there with lower | ⟨equal, first⟩
      · exact Or.inr (Or.inl lower)
      obtain ⟨within', there'⟩ := getElem?_take_eq_some_iff.mp there'
      obtain ⟨low₁, high₁⟩ := arranged'.place_bounds there'
      obtain ⟨low₂, high₂⟩ := arranged'.place_bounds (getElem?_take_eq_some_iff.mp there).2
      rcases lt_trichotomy (key y) (key x) with lower | same | higher
      · exact Or.inr (Or.inr ⟨equal, lower⟩)
      · rw [same] at first there
        obtain rfl : j = above key l (key x) := by omega
        exact Or.inl (Option.some.inj ((getElem?_take_eq_some_iff.mp there).2.symm.trans there'))
      · have : atLeast key l (key y) ≤ above key l (key x) := atLeast_le_above higher
        omega
  · rintro (zero | ⟨x, member, settled⟩) r₁ r₂ arranged₁ arranged₂
    · rw [arranged₁.best_eq_none zero, arranged₂.best_eq_none zero]
    · rw [arranged₁.best_eq_some distinct member settled,
        arranged₂.best_eq_some distinct member settled]

end Best

end Arrange
