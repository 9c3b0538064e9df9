import Mathlib.Data.List.Nodup

/-!
# Cross-linked indexes

Two maps that are inverse to each other, and a vector whose elements know their positions, with the
updates that keep them so. The maps are given by what they find, so that they fit any container.
-/

namespace CrossIndex

variable {K A : Type*}

/-- Each map finds what leads back to the key. -/
def Inverse (value : K → Option A) (index : A → Option K) : Prop :=
  ∀ k a, value k = some a ↔ index a = some k

namespace Inverse

variable {value value' : K → Option A} {index index' : A → Option K} {k : K} {a : A}

theorem congr (inverse : Inverse value index) (same : ∀ k, value' k = value k) :
    Inverse value' index := by
  intro k a
  rw [same k]
  exact inverse k a

variable [DecidableEq K] [DecidableEq A]

theorem insert (inverse : Inverse value index) (newKey : value k = none) (newValue : index a = none)
    (hvalue : ∀ k', value' k' = if k' = k then some a else value k')
    (hindex : ∀ a', index' a' = if a' = a then some k else index a') : Inverse value' index' := by
  intro k' a'
  rw [hvalue, hindex]
  by_cases key : k' = k
  · subst key
    rw [if_pos rfl]
    by_cases val : a' = a
    · subst val
      simp
    rw [if_neg val]
    constructor
    · rintro ⟨⟩
      exact absurd rfl val
    · intro found
      rw [(inverse k' a').mpr found] at newKey
      cases newKey
  rw [if_neg key]
  by_cases val : a' = a
  · subst val
    rw [if_pos rfl]
    constructor
    · intro found
      rw [(inverse k' a').mp found] at newValue
      cases newValue
    · rintro ⟨⟩
      exact absurd rfl key
  · rw [if_neg val]
    exact inverse k' a'

/-- A key is taken out with its value. -/
theorem erase (inverse : Inverse value index) (found : value k = some a)
    (hvalue : ∀ k', value' k' = if k' = k then none else value k')
    (hindex : ∀ a', index' a' = if a' = a then none else index a') : Inverse value' index' := by
  intro k' a'
  rw [hvalue, hindex]
  by_cases key : k' = k
  · subst key
    rw [if_pos rfl]
    by_cases val : a' = a
    · simp [val]
    rw [if_neg val]
    constructor
    · rintro ⟨⟩
    · intro there
      rw [(inverse k' a').mpr there] at found
      exact absurd (Option.some.inj found) val
  rw [if_neg key]
  by_cases val : a' = a
  · subst val
    rw [if_pos rfl]
    constructor
    · intro there
      have back := (inverse k a').mp found
      rw [(inverse k' a').mp there] at back
      exact absurd (Option.some.inj back) key
    · rintro ⟨⟩
  · rw [if_neg val]
    exact inverse k' a'

end Inverse

/-- Every key knows its position in the vector, and every element of the vector is a key that knows
this position. -/
def Placed (place : K → Option Int) (v : List K) : Prop :=
  ∀ k p, place k = some p ↔ ∃ i : Nat, p = i ∧ v[i]? = some k

namespace Placed

variable {place place' : K → Option Int} {v : List K} {k : K} {i j : Nat}

section

variable (placed : Placed place v)
include placed

theorem congr (same : ∀ k, place' k = place k) : Placed place' v := by
  intro k p
  rw [same k]
  exact placed k p

theorem at_place (here : v[i]? = some k) : place k = some (i : Int) :=
  (placed k i).mpr ⟨i, rfl, here⟩

/-- A key stands at one position. -/
theorem unique (here : v[i]? = some k) (there : v[j]? = some k) :
    i = j := by
  have same := (placed.at_place here).symm.trans (placed.at_place there)
  exact Int.ofNat_inj.mp (Option.some.inj same)

theorem nodup : v.Nodup := by
  rw [List.nodup_iff_injective_getElem]
  rintro ⟨i, hi⟩ ⟨j, hj⟩ same
  have same : v[i] = v[j] := same
  have here : v[i]? = some v[i] := List.getElem?_eq_getElem hi
  have there : v[j]? = some v[i] := by rw [same, List.getElem?_eq_getElem hj]
  exact Fin.ext (placed.unique here there)

/-- The elements are the keys. -/
theorem mem_iff (k : K) : k ∈ v ↔ ∃ p, place k = some p := by
  constructor
  · intro member
    obtain ⟨i, below, here⟩ := List.getElem_of_mem member
    exact ⟨i, placed.at_place (by rw [List.getElem?_eq_getElem below, here])⟩
  · rintro ⟨p, found⟩
    obtain ⟨i, -, here⟩ := (placed k p).mp found
    exact List.mem_of_getElem? here

end

variable [DecidableEq K]

/-- A new key behind the others. -/
theorem push (placed : Placed place v) (fresh : place k = none)
    (hplace : ∀ k', place' k' = if k' = k then some (v.length : Int) else place k') :
    Placed place' (v ++ [k]) := by
  intro k' p
  rw [hplace]
  by_cases same : k' = k
  · subst same
    rw [if_pos rfl]
    constructor
    · rintro ⟨⟩
      exact ⟨v.length, rfl, by simp⟩
    rintro ⟨i, rfl, here⟩
    by_cases below : i < v.length
    · rw [List.getElem?_append_left below] at here
      rw [placed.at_place here] at fresh
      cases fresh
    · have bound := (List.getElem?_eq_some_iff.mp here).1
      rw [List.length_append, List.length_singleton] at bound
      rw [show i = v.length by omega]
  · rw [if_neg same, placed k' p]
    constructor
    · rintro ⟨i, rfl, here⟩
      have below := (List.getElem?_eq_some_iff.mp here).1
      exact ⟨i, rfl, by rw [List.getElem?_append_left below, here]⟩
    rintro ⟨i, rfl, here⟩
    by_cases below : i < v.length
    · exact ⟨i, rfl, by rw [← here, List.getElem?_append_left below]⟩
    have bound := (List.getElem?_eq_some_iff.mp here).1
    rw [List.length_append, List.length_singleton] at bound
    rw [show i = v.length by omega, List.getElem?_concat_length] at here
    exact absurd (Option.some.inj here).symm same

/-- Two elements trade places. -/
theorem swap {k₁ k₂ : K} (placed : Placed place v) (apart : i ≠ j) (first : v[i]? = some k₁)
    (second : v[j]? = some k₂)
    (hplace : ∀ k', place' k' =
      if k' = k₂ then some (i : Int) else if k' = k₁ then some (j : Int) else place k') :
    Placed place' ((v.set i k₂).set j k₁) := by
  have below := (List.getElem?_eq_some_iff.mp first).1
  have below' := (List.getElem?_eq_some_iff.mp second).1
  have read : ∀ l : Nat, ((v.set i k₂).set j k₁)[l]? =
      if l = j then some k₁ else if l = i then some k₂ else v[l]? := by
    intro l
    rw [List.getElem?_set, List.getElem?_set]
    by_cases atJ : l = j
    · subst atJ
      simp [below']
    by_cases atI : l = i
    · subst atI
      simp [atJ, below, Ne.symm atJ]
    · simp [atJ, atI, Ne.symm atJ, Ne.symm atI]
  have different : k₁ ≠ k₂ := by
    rintro rfl
    exact apart (placed.unique first second)
  intro k' p
  rw [hplace]
  by_cases isSecond : k' = k₂
  · subst isSecond
    rw [if_pos rfl]
    constructor
    · rintro ⟨⟩
      exact ⟨i, rfl, by rw [read, if_neg apart, if_pos rfl]⟩
    rintro ⟨l, rfl, here⟩
    rw [read] at here
    by_cases atJ : l = j
    · rw [if_pos atJ] at here
      exact absurd (Option.some.inj here) different
    rw [if_neg atJ] at here
    by_cases atI : l = i
    · rw [atI]
    · rw [if_neg atI] at here
      exact absurd (placed.unique here second) atJ
  · rw [if_neg isSecond]
    by_cases isFirst : k' = k₁
    · subst isFirst
      rw [if_pos rfl]
      constructor
      · rintro ⟨⟩
        exact ⟨j, rfl, by rw [read, if_pos rfl]⟩
      rintro ⟨l, rfl, here⟩
      rw [read] at here
      by_cases atJ : l = j
      · rw [atJ]
      rw [if_neg atJ] at here
      by_cases atI : l = i
      · rw [if_pos atI] at here
        exact absurd (Option.some.inj here).symm different
      · rw [if_neg atI] at here
        exact absurd (placed.unique here first) atI
    · rw [if_neg isFirst, placed k' p]
      constructor
      · rintro ⟨l, rfl, here⟩
        refine ⟨l, rfl, ?_⟩
        rw [read, if_neg, if_neg, here]
        · rintro rfl
          rw [first] at here
          exact isFirst (Option.some.inj here).symm
        · rintro rfl
          rw [second] at here
          exact isSecond (Option.some.inj here).symm
      rintro ⟨l, rfl, here⟩
      refine ⟨l, rfl, ?_⟩
      rw [read] at here
      by_cases atJ : l = j
      · rw [if_pos atJ] at here
        exact absurd (Option.some.inj here).symm isFirst
      rw [if_neg atJ] at here
      by_cases atI : l = i
      · rw [if_pos atI] at here
        exact absurd (Option.some.inj here).symm isSecond
      · rwa [if_neg atI] at here

/-- The last element is taken off. -/
theorem pop (placed : Placed place v) (last : v[v.length - 1]? = some k)
    (hplace : ∀ k', place' k' = if k' = k then none else place k') : Placed place' v.dropLast := by
  have read : ∀ l : Nat, v.dropLast[l]? = if l < v.length - 1 then v[l]? else none := by
    intro l
    rw [List.getElem?_dropLast]
  intro k' p
  rw [hplace]
  by_cases same : k' = k
  · subst same
    rw [if_pos rfl]
    constructor
    · rintro ⟨⟩
    rintro ⟨l, rfl, here⟩
    rw [read] at here
    by_cases below : l < v.length - 1
    · rw [if_pos below] at here
      have equal := placed.unique here last
      omega
    · rw [if_neg below] at here
      cases here
  rw [if_neg same, placed k' p]
  constructor
  · rintro ⟨l, rfl, here⟩
    refine ⟨l, rfl, ?_⟩
    have bound := (List.getElem?_eq_some_iff.mp here).1
    have before : l < v.length - 1 := by
      rcases Nat.lt_or_ge l (v.length - 1) with before | behind
      · exact before
      · rw [show l = v.length - 1 by omega, last] at here
        exact absurd (Option.some.inj here).symm same
    rw [read, if_pos before, here]
  · rintro ⟨l, rfl, here⟩
    rw [read] at here
    by_cases below : l < v.length - 1
    · rw [if_pos below] at here
      exact ⟨l, rfl, here⟩
    · rw [if_neg below] at here
      cases here

end Placed

end CrossIndex
