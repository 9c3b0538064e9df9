import Mathlib.Data.List.Basic
import Mathlib.Order.Basic
import Mathlib.Order.Lattice

/-!
# The newest of what comes

A place that takes what comes only if its stamp is above the stamp it holds. In the end it holds one
with the largest stamp, the first such one that came.
-/

namespace Esbcoin

variable {α β : Type} [LinearOrder β] (stamp : α → β)

/-- Keeps what is held unless the new one has a larger stamp. -/
def keepNewer (held : Option α) (x : α) : Option α :=
  match held with
  | none => some x
  | some y => if stamp x ≤ stamp y then some y else some x

/-- What is held stays or is followed by something newer that came. -/
theorem foldl_keepNewer_some (xs : List α) (y : α) :
    ∃ z, xs.foldl (keepNewer stamp) (some y) = some z ∧ stamp y ≤ stamp z ∧
      (z = y ∨ z ∈ xs ∧ stamp y < stamp z) ∧ ∀ x ∈ xs, stamp x ≤ stamp z := by
  induction xs generalizing y with
  | nil =>
    refine ⟨y, rfl, le_refl _, Or.inl rfl, ?_⟩
    intro x member
    cases member
  | cons x xs ih =>
    rw [List.foldl_cons, keepNewer]
    by_cases older : stamp x ≤ stamp y
    · rw [if_pos older]
      obtain ⟨z, run, above, origin, largest⟩ := ih y
      refine ⟨z, run, above, ?_, List.forall_mem_cons.mpr ⟨le_trans older above, largest⟩⟩
      exact origin.imp_right fun inside => ⟨List.mem_cons_of_mem _ inside.1, inside.2⟩
    rw [if_neg older]
    have newer := lt_of_not_ge older
    obtain ⟨z, run, above, origin, largest⟩ := ih x
    have more := lt_of_lt_of_le newer above
    refine ⟨z, run, le_of_lt more, Or.inr ⟨?_, more⟩, List.forall_mem_cons.mpr ⟨above, largest⟩⟩
    rcases origin with rfl | ⟨member, -⟩
    · exact List.mem_cons_self
    · exact List.mem_cons_of_mem _ member

variable {stamp}

/-- What came last in time is not replaced. -/
theorem foldl_keepNewer_of_le {xs : List α} {y : α} (older : ∀ x ∈ xs, stamp x ≤ stamp y) :
    xs.foldl (keepNewer stamp) (some y) = some y := by
  obtain ⟨z, run, -, origin, -⟩ := foldl_keepNewer_some stamp xs y
  rcases origin with rfl | ⟨member, newer⟩
  · exact run
  · exact absurd (older z member) (not_le_of_gt newer)

/-- A place that held nothing holds one of what came, with the largest stamp. -/
theorem foldl_keepNewer_none {xs : List α} {z : α}
    (held : xs.foldl (keepNewer stamp) none = some z) :
    z ∈ xs ∧ ∀ x ∈ xs, stamp x ≤ stamp z := by
  cases xs with
  | nil => cases held
  | cons x xs =>
    obtain ⟨z', run, above, origin, largest⟩ := foldl_keepNewer_some stamp xs x
    obtain rfl := Option.some.inj (run.symm.trans held)
    refine ⟨?_, List.forall_mem_cons.mpr ⟨above, largest⟩⟩
    rcases origin with rfl | ⟨member, -⟩
    · exact List.mem_cons_self
    · exact List.mem_cons_of_mem _ member

/-- It holds something as soon as something came. -/
theorem foldl_keepNewer_isSome (stamp : α → β) {xs : List α} (came : xs ≠ []) :
    ∃ z, xs.foldl (keepNewer stamp) none = some z := by
  cases xs with
  | nil => exact absurd rfl came
  | cons x xs =>
    obtain ⟨z, run, -⟩ := foldl_keepNewer_some stamp xs x
    exact ⟨z, run⟩

end Esbcoin
