import Mathlib.Data.List.Count
import Mathlib.Data.List.Perm.Subperm
import Mathlib.Logic.Function.Basic

/-!
# Tables of slots

A table holds at most one value in each of its slots, and a value may stand in several. `held` says
in how many of some slots it stands.
-/

namespace SlotTable

variable {σ α : Type*} {slots : List σ} {t : σ → Option α} {i : σ} {a : α}

/-- Different values that stand in some slot are no more than the slots. -/
theorem length_le_of_stands (slots : List σ) (t : σ → Option α) {l : List α} (distinct : l.Nodup)
    (stands : ∀ a ∈ l, ∃ i ∈ slots, t i = some a) : l.length ≤ slots.length := by
  have subset : l ⊆ slots.filterMap t := by
    intro a member
    obtain ⟨i, here, found⟩ := stands a member
    exact List.mem_filterMap.mpr ⟨i, here, found⟩
  exact Nat.le_trans (List.subperm_of_subset distinct subset).length_le
    (List.length_filterMap_le t slots)

variable [DecidableEq α]

/-- In how many of the slots `a` stands. -/
def held (slots : List σ) (t : σ → Option α) (a : α) : Nat :=
  slots.countP fun i => decide (t i = some a)

@[simp] theorem held_nil (t : σ → Option α) (a : α) : held [] t a = 0 := rfl

theorem held_cons (i : σ) (slots : List σ) (t : σ → Option α) (a : α) :
    held (i :: slots) t a = held slots t a + if t i = some a then 1 else 0 := by
  rw [held, List.countP_cons]
  by_cases here : t i = some a
  · rw [if_pos here, if_pos (decide_eq_true here), held]
  · rw [if_neg here, if_neg (by simpa using here), held]

theorem held_eq_zero_iff : held slots t a = 0 ↔ ∀ i ∈ slots, t i ≠ some a := by
  rw [held, List.countP_eq_zero]
  simp

theorem held_pos (member : i ∈ slots) (here : t i = some a) : 1 ≤ held slots t a :=
  List.countP_pos_iff.mpr ⟨i, member, decide_eq_true here⟩

/-- Tables that agree on the slots. -/
theorem held_congr {t' : σ → Option α} (same : ∀ i ∈ slots, t' i = t i) :
    held slots t' a = held slots t a := by
  apply List.countP_congr
  intro i member
  rw [same i member]

section Writes

variable {σ α : Type*} [DecidableEq σ] {t : σ → Option α} {i : σ} {a : α}

/-- What stands in a table behind a slot that was emptied. -/
theorem of_update_none {j : σ} (there : Function.update t i none j = some a) :
    j ≠ i ∧ t j = some a := by
  by_cases same : j = i
  · subst same
    rw [Function.update_self] at there
    cases there
  · rw [Function.update_of_ne same] at there
    exact ⟨same, there⟩

/-- What stands in a table behind a slot that was filled. -/
theorem of_update_some {j : σ} {b : α} (there : Function.update t i (some b) j = some a) :
    j = i ∧ b = a ∨ j ≠ i ∧ t j = some a := by
  by_cases same : j = i
  · subst same
    rw [Function.update_self] at there
    exact Or.inl ⟨rfl, Option.some.inj there⟩
  · rw [Function.update_of_ne same] at there
    exact Or.inr ⟨same, there⟩

end Writes

variable [DecidableEq σ]

theorem held_update_of_notMem (absent : i ∉ slots) (v : Option α) :
    held slots (Function.update t i v) a = held slots t a := by
  apply held_congr
  intro j member
  rw [Function.update_of_ne]
  rintro rfl
  exact absent member

/-- What a write to one slot does to the count. -/
theorem held_update (nodup : slots.Nodup) (member : i ∈ slots) (v : Option α) :
    held slots (Function.update t i v) a + (if t i = some a then 1 else 0) =
      held slots t a + if v = some a then 1 else 0 := by
  induction slots with
  | nil => cases member
  | cons j slots ih =>
    obtain ⟨absent, nodup⟩ := List.nodup_cons.mp nodup
    rw [held_cons, held_cons]
    rcases List.mem_cons.mp member with rfl | member
    · rw [held_update_of_notMem absent, Function.update_self]
      omega
    have apart : j ≠ i := by
      rintro rfl
      exact absent member
    have rest := ih nodup member
    rw [Function.update_of_ne apart]
    omega

theorem held_leave (nodup : slots.Nodup) (member : i ∈ slots) (here : t i = some a) :
    held slots (Function.update t i none) a + 1 = held slots t a := by
  have write := held_update (a := a) (t := t) nodup member none
  rw [if_pos here, if_neg (by simp)] at write
  exact write

theorem held_enter (nodup : slots.Nodup) (member : i ∈ slots) (free : t i = none) :
    held slots (Function.update t i (some a)) a = held slots t a + 1 := by
  have write := held_update (a := a) (t := t) nodup member (some a)
  rw [if_neg (by rw [free]; simp), if_pos rfl] at write
  exact write

/-- Other values stay where they are. -/
theorem held_other {v : Option α} (nodup : slots.Nodup) (member : i ∈ slots)
    (before : t i ≠ some a) (after : v ≠ some a) :
    held slots (Function.update t i v) a = held slots t a := by
  have write := held_update (a := a) (t := t) nodup member v
  rw [if_neg before, if_neg after] at write
  exact write

end SlotTable
