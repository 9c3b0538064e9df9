import Mathlib.Data.List.Basic

/-!
# A loop that stops early

A loop looks at the elements of a list in order and leaves it at the first that stops it. An element
does its harm if no element before it has stopped the loop.
-/

namespace Esbcoin

/-- Some element is `bad` and behind none that would `stop` the loop. -/
def BadBeforeStop {α : Type} (bad stop : α → Prop) (l : List α) : Prop :=
  ∃ before x after, l = before ++ x :: after ∧ bad x ∧ ∀ earlier ∈ before, ¬ stop earlier

section

variable {α : Type} {bad stop : α → Prop} {first : α} {rest : List α}

@[simp] theorem badBeforeStop_nil : ¬ BadBeforeStop bad stop [] := by
  rintro ⟨before, x, after, equal, -⟩
  simp at equal

theorem badBeforeStop_cons : BadBeforeStop bad stop (first :: rest) ↔
    bad first ∨ (¬ stop first ∧ BadBeforeStop bad stop rest) := by
  constructor
  · rintro ⟨before, x, after, equal, isBad, clear⟩
    cases before with
    | nil =>
      obtain ⟨rfl, -⟩ := List.cons.inj equal
      exact .inl isBad
    | cons head before =>
      obtain ⟨rfl, rfl⟩ := List.cons.inj equal
      refine .inr ⟨clear _ List.mem_cons_self, before, x, after, rfl, isBad, ?_⟩
      intro earlier member
      exact clear earlier (List.mem_cons_of_mem _ member)
  · rintro (isBad | ⟨goesOn, before, x, after, rfl, isBad, clear⟩)
    · exact ⟨[], first, rest, rfl, isBad, by simp⟩
    refine ⟨first :: before, x, after, rfl, isBad, ?_⟩
    intro earlier member
    rcases List.mem_cons.mp member with rfl | member
    · exact goesOn
    · exact clear earlier member

end

end Esbcoin
