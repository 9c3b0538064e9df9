import Esbcoin.Lib.StepRun

/-!
# Runs in another order

Actions have keys, and two actions with different keys commute up to an equivalence of states.
Then the state behind a run depends, up to the equivalence, only on the actions of each key in
their order.
-/

namespace StepRun

universe u v w

variable {S : Type u} {A : Type v} {K : Type w} [DecidableEq K]
variable {step : S → A → S} {R : S → S → Prop} {key : A → K}

theorem run_congr (congr : ∀ a s s', R s s' → R (step s a) (step s' a)) {s s' : S}
    (h : R s s') (actions : List A) : R (run step s actions) (run step s' actions) := by
  induction actions generalizing s s' with
  | nil => exact h
  | cons a actions ih => exact ih (congr a s s' h)

/-- An action may move to the front of actions it commutes with. -/
theorem run_move_front (equiv : Equivalence R)
    (congr : ∀ a s s', R s s' → R (step s a) (step s' a)) {a : A} {before : List A}
    (comm : ∀ b ∈ before, ∀ s, R (step (step s b) a) (step (step s a) b)) (s : S)
    (after : List A) :
    R (run step s (before ++ a :: after)) (run step (step s a) (before ++ after)) := by
  induction before generalizing s with
  | nil => exact equiv.refl _
  | cons b before ih =>
    have rest := ih (fun b' member => comm b' (List.mem_cons_of_mem _ member)) (step s b)
    have front := run_congr congr (comm b List.mem_cons_self s) (before ++ after)
    exact equiv.trans rest front

/-- Two runs with the same actions of each key, in the same order, end in equivalent states. -/
theorem run_of_filter_eq (equiv : Equivalence R)
    (congr : ∀ a s s', R s s' → R (step s a) (step s' a)) {first second : List A}
    (comm : ∀ a ∈ first, ∀ b ∈ first, key a ≠ key b →
      ∀ s, R (step (step s b) a) (step (step s a) b))
    (same : ∀ k, first.filter (fun a => key a = k) = second.filter (fun a => key a = k)) (s : S) :
    R (run step s first) (run step s second) := by
  induction first generalizing s second with
  | nil =>
    cases second with
    | nil => exact equiv.refl _
    | cons b second =>
      have empty := same (key b)
      simp at empty
  | cons a first ih =>
    have head := same (key a)
    rw [List.filter_cons_of_pos (by simp)] at head
    obtain ⟨before, after, rfl, others, -, rest⟩ := List.filter_eq_cons_iff.mp head.symm
    have apart : ∀ b ∈ before, key a ≠ key b := by
      intro b member equal
      exact others b member (by simp [equal])
    have member : ∀ b ∈ before, b ∈ a :: first := by
      intro b inBefore
      have there : b ∈ (before ++ a :: after).filter (fun c => key c = key b) := by
        simp [inBefore]
      rw [← same (key b)] at there
      exact (List.mem_filter.mp there).1
    have moved := run_move_front equiv congr
      (fun b inBefore => comm a List.mem_cons_self b (member b inBefore) (apart b inBefore)) s after
    have tails : ∀ k, first.filter (fun a => key a = k) =
        (before ++ after).filter (fun a => key a = k) := by
      intro k
      have here := same k
      rw [List.filter_append] at here ⊢
      by_cases equal : key a = k
      · rw [List.filter_cons_of_pos (by simp [equal]), List.filter_cons_of_pos (by simp [equal])]
          at here
        have none : before.filter (fun a => key a = k) = [] :=
          List.filter_eq_nil_iff.mpr fun b inBefore => by
            have := apart b inBefore
            rw [equal] at this
            simp [Ne.symm this]
        rw [none] at here ⊢
        exact (List.cons.inj here).2
      · rwa [List.filter_cons_of_neg (by simp [equal]), List.filter_cons_of_neg (by simp [equal])]
          at here
    have rest := ih (fun b inFirst c inFirst' => comm b (List.mem_cons_of_mem _ inFirst) c
      (List.mem_cons_of_mem _ inFirst')) tails (step s a)
    exact equiv.trans rest (equiv.symm moved)

end StepRun
