import Mathlib.Algebra.BigOperators.Group.Finset.Basic
import Mathlib.Algebra.Order.BigOperators.Group.Finset
import Mathlib.Data.Fintype.BigOperators

/-!
# Measures of a family of threads

A system of threads keeps the local state of each; a step changes one of them.
-/

namespace Threads

universe u v

variable {ι : Type u} {L : Type v} [Fintype ι]

/-- The measure of all threads together. -/
def total (g : L → Nat) (f : ι → L) : Nat := ∑ t, g (f t)

theorem le_total (g : L → Nat) (f : ι → L) (t : ι) : g (f t) ≤ total g f :=
  Finset.single_le_sum (f := fun t => g (f t)) (fun _ _ => Nat.zero_le _) (Finset.mem_univ t)

theorem total_eq_zero_iff {g : L → Nat} {f : ι → L} : total g f = 0 ↔ ∀ t, g (f t) = 0 := by
  unfold total
  rw [Finset.sum_eq_zero_iff]
  exact ⟨fun zero t => zero t (Finset.mem_univ t), fun zero t _ => zero t⟩

/-- A change that the measure of no thread notices. -/
theorem total_congr {g : L → Nat} {f f' : ι → L} (same : ∀ t, g (f' t) = g (f t)) :
    total g f' = total g f := Finset.sum_congr rfl fun t _ => same t

/-- Two measures that agree on every thread. -/
theorem total_congr_measure {g g' : L → Nat} {f : ι → L} (same : ∀ t, g' (f t) = g (f t)) :
    total g' f = total g f := Finset.sum_congr rfl fun t _ => same t

/-- A measure cannot fall again and again. -/
theorem not_falling (measure : Nat → Nat) (start : Nat)
    (falls : ∀ n, start ≤ n → ∃ m, n ≤ m ∧ measure m < measure n) : False := by
  have none_reached : ∀ bound n, start ≤ n → measure n < bound → False := by
    intro bound
    induction bound with
    | zero => exact fun n _ small => Nat.not_lt_zero _ small
    | succ bound ih =>
      intro n later small
      obtain ⟨m, le, less⟩ := falls n later
      exact ih m (later.trans le) (less.trans_le (Nat.le_of_lt_succ small))
  exact none_reached _ start (Nat.le_refl _) (Nat.lt_succ_self _)

variable [DecidableEq ι]

/-- One thread changes its state. -/
theorem total_update (g : L → Nat) (f : ι → L) (t : ι) (l : L) :
    total g (Function.update f t l) + g (f t) = total g f + g l := by
  unfold total
  have others : ∑ i ∈ Finset.univ.erase t, g (Function.update f t l i) =
      ∑ i ∈ Finset.univ.erase t, g (f i) := by
    apply Finset.sum_congr rfl
    intro i member
    rw [Function.update_of_ne (Finset.ne_of_mem_erase member)]
  rw [← Finset.add_sum_erase Finset.univ (fun i => g (Function.update f t l i)) (Finset.mem_univ t),
    ← Finset.add_sum_erase Finset.univ (fun i => g (f i)) (Finset.mem_univ t), others,
    Function.update_self]
  omega

end Threads
