import Mathlib.Algebra.BigOperators.Group.List.Basic
import Mathlib.Algebra.Ring.Int.Defs

namespace Flags

variable {α : Type*}

/-- The elements whose flag is set. -/
def picked : List α → List Bool → List α
  | a :: l, true :: flags => a :: picked l flags
  | _ :: l, false :: flags => picked l flags
  | [], _ => []
  | _ :: _, [] => []

theorem picked_sublist (l : List α) (flags : List Bool) : (picked l flags).Sublist l := by
  induction l generalizing flags with
  | nil => simp [picked]
  | cons a l ih =>
    cases flags with
    | nil => simp [picked]
    | cons flag flags =>
      cases flag with
      | true => exact (ih flags).cons_cons a
      | false => exact (ih flags).cons a

@[simp] theorem picked_all (l : List α) : picked l (List.replicate l.length true) = l := by
  induction l with
  | nil => rfl
  | cons a l ih => rw [List.length_cons, List.replicate_succ, picked, ih]

@[simp] theorem picked_none (l : List α) (n : Nat) : picked l (List.replicate n false) = [] := by
  induction l generalizing n with
  | nil => rfl
  | cons a l ih =>
    cases n with
    | zero => rfl
    | succ n => rw [List.replicate_succ, picked, ih]

/-- What the picked elements weigh together. -/
def weight (value : α → Int) (l : List α) (flags : List Bool) : Int :=
  ((picked l flags).map value).sum

theorem weight_set (value : α → Int) {l : List α} {flags : List Bool} {i : Nat} {a : α}
    (there : l[i]? = some a) (out : flags[i]? = some false) :
    weight value l (flags.set i true) = weight value l flags + value a := by
  induction l generalizing flags i with
  | nil => simp at there
  | cons b l ih =>
    cases flags with
    | nil => simp at out
    | cons flag flags =>
      cases i with
      | zero =>
        obtain rfl : b = a := by simpa using there
        obtain rfl : flag = false := by simpa using out
        simp [weight, picked, add_comm]
      | succ i =>
        have rest := @ih flags i (by simpa using there) (by simpa using out)
        unfold weight at rest ⊢
        cases flag with
        | true => simp [picked, rest, add_assoc]
        | false => simp [picked, rest]

end Flags
