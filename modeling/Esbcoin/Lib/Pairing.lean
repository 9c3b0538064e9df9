import Mathlib.Algebra.BigOperators.Group.List.Basic
import Mathlib.Algebra.Order.BigOperators.Group.List
import Mathlib.Algebra.Order.Ring.Int
import Mathlib.Data.List.Nodup
import Mathlib.Data.List.Perm.Subperm

/-!
# Comparing two lists by their equal pairs

`matched l m` has an element for each pair of equal elements of `l` and `m`.
-/

namespace Pairing

variable {α : Type*} [DecidableEq α] {l m : List α}

/-- The elements of `l` that equal one of `m`, once for each equal pair. -/
def matched (l m : List α) : List α := m.flatMap fun x => l.filter fun y => x = y

/-- The elements of `l` that `m` does not have. -/
def missing (l m : List α) : List α := l.filter fun y => y ∉ m

/-- The elements of `l`, as often as `m` has them beyond the first time. -/
def repeated (l m : List α) : List α := l.flatMap fun y => List.replicate (m.count y - 1) y

/-- `m` repeats enough of `l` to make up, in number and in value, for what it leaves out. -/
def MakesUp (value : α → Int) (l m : List α) : Prop :=
  (missing l m).length ≤ (repeated l m).length ∧
    ((missing l m).map value).sum = ((repeated l m).map value).sum

instance (value : α → Int) (l m : List α) : Decidable (MakesUp value l m) :=
  inferInstanceAs (Decidable (_ ∧ _))

/-- The elements of `l` differ, and `m` has each of them once. -/
def OnceEach (l m : List α) : Prop := l.Nodup ∧ ∀ y ∈ l, m.count y = 1

theorem matched_nil (m : List α) : matched [] m = [] := by
  unfold matched
  simp

/-- The pairs of an element with a list are as many as the list has of it. -/
theorem matched_cons_perm (y : α) (l m : List α) :
    (matched (y :: l) m).Perm (List.replicate (m.count y) y ++ matched l m) := by
  unfold matched
  induction m with
  | nil => exact List.Perm.refl _
  | cons x m ih =>
    rw [List.flatMap_cons, List.flatMap_cons]
    by_cases equal : x = y
    · subst equal
      rw [List.filter_cons_of_pos (by simp), List.count_cons_self, List.replicate_succ]
      simp only [List.cons_append]
      refine List.Perm.cons x ?_
      refine (List.Perm.append_left _ ih).trans ?_
      rw [← List.append_assoc, ← List.append_assoc]
      exact List.Perm.append_right _ List.perm_append_comm
    · rw [List.filter_cons_of_neg (by simpa using equal), List.count_cons_of_ne equal]
      refine (List.Perm.append_left _ ih).trans ?_
      rw [← List.append_assoc, ← List.append_assoc]
      exact List.Perm.append_right _ List.perm_append_comm

theorem matched_append_missing_perm (l m : List α) :
    (matched l m ++ missing l m).Perm (l ++ repeated l m) := by
  induction l with
  | nil => rw [matched_nil]; exact List.Perm.refl _
  | cons y l ih =>
    refine (List.Perm.append_right _ (matched_cons_perm y l m)).trans ?_
    rw [repeated, List.flatMap_cons, ← repeated]
    by_cases member : y ∈ m
    · have some_y : 0 < m.count y := List.count_pos_iff.mpr member
      obtain ⟨n, count⟩ : ∃ n, m.count y = n + 1 := ⟨m.count y - 1, by omega⟩
      rw [count, Nat.add_sub_cancel, List.replicate_succ, missing,
        List.filter_cons_of_neg (by simpa using member), ← missing]
      simp only [List.cons_append, List.append_assoc]
      refine List.Perm.cons y ?_
      refine (List.Perm.append_left _ ih).trans ?_
      rw [← List.append_assoc, ← List.append_assoc]
      exact List.Perm.append_right _ List.perm_append_comm
    · rw [List.count_eq_zero_of_not_mem member, missing,
        List.filter_cons_of_pos (by simpa using member), ← missing]
      exact List.perm_middle.trans (List.Perm.cons y ih)

/-- To count the equal pairs and to sum their values is to ask whether what is repeated makes up for
what is missing. -/
theorem makesUp_iff (value : α → Int) (l m : List α) :
    MakesUp value l m ↔
      l.length ≤ (matched l m).length ∧ ((matched l m).map value).sum = (l.map value).sum := by
  have perm := matched_append_missing_perm l m
  have length := perm.length_eq
  have sum := (perm.map value).sum_eq
  rw [List.length_append, List.length_append] at length
  rw [List.map_append, List.map_append, List.sum_append, List.sum_append] at sum
  constructor
  · rintro ⟨few, equal⟩
    exact ⟨by omega, by omega⟩
  · rintro ⟨few, equal⟩
    exact ⟨by omega, by omega⟩

theorem missing_eq_nil_iff : missing l m = [] ↔ ∀ y ∈ l, y ∈ m := by
  unfold missing
  simp

theorem OnceEach.subperm (once : OnceEach l m) : l.Subperm m :=
  List.subperm_of_subset once.1 fun y member =>
    List.count_pos_iff.mp (by rw [once.2 y member]; exact Nat.one_pos)

/-- Where the values are positive, a list that is made up for is contained only if its elements
differ and are there once each. -/
theorem subperm_iff_onceEach {value : α → Int} (positive : ∀ y ∈ l, 0 < value y)
    (makesUp : MakesUp value l m) : l.Subperm m ↔ OnceEach l m := by
  constructor
  · intro contained
    have none : missing l m = [] := missing_eq_nil_iff.mpr fun y member => contained.subset member
    have zero : ((repeated l m).map value).sum = 0 := by
      rw [← makesUp.2, none]
      rfl
    have noneRepeated : repeated l m = [] := by
      by_contra some_repeated
      have above := List.sum_pos ((repeated l m).map value) (by
        intro v member
        obtain ⟨y, inRepeated, rfl⟩ := List.mem_map.mp member
        obtain ⟨z, inList, copy⟩ := List.mem_flatMap.mp inRepeated
        rw [(List.mem_replicate.mp copy).2]
        exact positive z inList) (by simpa using some_repeated)
      omega
    have once : ∀ y ∈ l, m.count y = 1 := by
      intro y member
      have present := List.count_pos_iff.mpr (contained.subset member)
      by_contra more
      have copy : y ∈ repeated l m :=
        List.mem_flatMap.mpr ⟨y, member, List.mem_replicate.mpr ⟨by omega, rfl⟩⟩
      rw [noneRepeated] at copy
      cases copy
    refine ⟨List.nodup_iff_count.mpr fun y => ?_, once⟩
    by_cases member : y ∈ l
    · exact (contained.count_le y).trans (Nat.le_of_eq (once y member))
    · rw [List.count_eq_zero_of_not_mem member]
      exact Nat.zero_le 1
  · exact fun once => once.subperm

end Pairing
