import Mathlib.Logic.Basic

/-!
# Counting calls

A computation that may fail and counts the calls it makes of something outside. What is called may
answer by how many calls came before, so an answer may depend on the earlier ones in any way.
`AtMost` bounds the calls whatever the outcome; its rules follow the ways computations are put
together, and a step behind another is only looked at for what that one can return. `Meets` says in
the same way what a computation returns and how it fails.
-/

/-- A computation that may fail and counts calls. -/
abbrev Counted (ε α : Type) := EStateM ε Nat α

namespace Counted

variable {ε α β : Type}

/-- The calls made up to an outcome. -/
def count : EStateM.Result ε Nat α → Nat
  | .ok _ calls => calls
  | .error _ calls => calls

/-- A computation without calls. -/
def lift (result : Except ε α) : Counted ε α := fun calls =>
  match result with
  | .ok a => .ok a calls
  | .error e => .error e calls

/-- One call, answered by how many came before. -/
def call (answer : Nat → Except ε α) : Counted ε α := fun calls =>
  match answer calls with
  | .ok a => .ok a (calls + 1)
  | .error e => .error e (calls + 1)

/-- The calls of a computation from none on. -/
def calls (x : Counted ε α) : Nat := count (x 0)

/-- A computation can return a value. -/
def Returns (x : Counted ε α) (a : α) : Prop := ∃ before after, x before = .ok a after

/-- A computation makes no more than so many calls, whatever the outcome. -/
def AtMost (bound : Nat) (x : Counted ε α) : Prop := ∀ before, count (x before) ≤ before + bound

/-- Whatever is answered, a value that is returned meets `Q` and an error that is raised `P`. -/
def Meets (P : ε → Prop) (Q : α → Prop) (x : Counted ε α) : Prop :=
  ∀ before, match x before with
    | .ok a _ => Q a
    | .error e _ => P e

section Rules

variable {x : Counted ε α} {f : α → Counted ε β} {bound more : Nat}

variable {a : α} {P : ε → Prop} {Q : α → Prop}

theorem returns_lift {result : Except ε α} (h : Returns (lift result) a) : result = .ok a := by
  obtain ⟨before, after, h⟩ := h
  cases result with
  | ok b =>
    obtain ⟨rfl, -⟩ := EStateM.Result.ok.inj h
    rfl
  | error e => cases h

theorem returns_pure {b : α} (h : Returns (pure a : Counted ε α) b) : b = a := by
  obtain ⟨before, after, h⟩ := h
  exact (EStateM.Result.ok.inj h).1.symm

theorem bind_apply (x : Counted ε α) (f : α → Counted ε β) (before : Nat) :
    (x >>= f) before = match x before with
      | .ok a middle => f a middle
      | .error e after => .error e after := by
  show EStateM.bind x f before = _
  unfold EStateM.bind
  cases x before <;> rfl

/-- A sequence without calls. -/
theorem lift_bind (first : Except ε α) (second : α → Except ε β) :
    (lift (first >>= second) : Counted ε β) = lift first >>= fun a => lift (second a) := by
  funext before
  rw [bind_apply]
  cases first <;> rfl

/-- What a sequence returns, its second part returns for something the first returns. -/
theorem returns_bind {b : β} (h : Returns (x >>= f) b) : ∃ a, Returns x a ∧ Returns (f a) b := by
  obtain ⟨before, after, h⟩ := h
  rw [bind_apply] at h
  split at h
  · rename_i a middle first
    exact ⟨a, ⟨before, middle, first⟩, middle, after, h⟩
  · cases h

theorem AtMost.mono (h : AtMost bound x) (le : bound ≤ more) : AtMost more x := by
  intro before
  have here := h before
  omega

theorem atMost_pure (a : α) : AtMost 0 (pure a : Counted ε α) := fun before => Nat.le_refl before

theorem atMost_lift (result : Except ε α) : AtMost 0 (lift result) := by
  intro before
  cases result <;> exact Nat.le_refl before

theorem atMost_call (answer : Nat → Except ε α) : AtMost 1 (call answer) := by
  intro before
  unfold call
  cases answer before <;> exact Nat.le_refl (before + 1)

/-- The bounds of the two parts of a sequence add up. -/
theorem AtMost.bind (first : AtMost bound x) (second : ∀ a, Returns x a → AtMost more (f a)) :
    AtMost (bound + more) (x >>= f) := by
  intro before
  have here := first before
  rw [bind_apply]
  split
  · rename_i a middle result
    have later := second a ⟨before, middle, result⟩ middle
    rw [result, count] at here
    omega
  rename_i e after result
  rw [result, count] at here
  rw [count]
  omega

/-- A part without calls does not count. -/
theorem AtMost.lift_bind {result : Except ε α} (second : ∀ a, result = .ok a → AtMost more (f a)) :
    AtMost more (lift result >>= f) := by
  have whole := (atMost_lift result).bind fun a returns => second a (returns_lift returns)
  rwa [Nat.zero_add] at whole

theorem meets_pure (h : Q a) : Meets P Q (pure a : Counted ε α) := fun _ => h

theorem meets_ok (h : Q a) : Meets P Q (lift (.ok a) : Counted ε α) := fun _ => h

theorem meets_error {e : ε} (h : P e) : Meets P Q (lift (.error e) : Counted ε α) := fun _ => h

/-- A call that is always answered can return anything. -/
theorem meets_call {answer : Nat → α} (h : ∀ calls, Q (answer calls)) :
    Meets P Q (call (fun calls => .ok (answer calls)) : Counted ε α) := fun before => h before

theorem Meets.mono {Q' : α → Prop} (h : Meets P Q x) (le : ∀ a, Q a → Q' a) : Meets P Q' x := by
  intro before
  have here := h before
  revert here
  cases x before with
  | ok a after => exact le a
  | error e after => exact id

/-- A sequence fails like one of its parts, and its second part starts from what the first
returns. -/
theorem Meets.bind {Q' : β → Prop} (first : Meets P Q x) (second : ∀ a, Q a → Meets P Q' (f a)) :
    Meets P Q' (x >>= f) := by
  intro before
  have here := first before
  rw [bind_apply]
  revert here
  cases x before with
  | ok a middle => exact fun here => second a here middle
  | error e after => exact id

theorem Meets.ite {condition : Prop} [Decidable condition] {y : Counted ε α}
    (first : condition → Meets P Q x) (second : ¬ condition → Meets P Q y) :
    Meets P Q (if condition then x else y) := by
  split
  · rename_i holds
    exact first holds
  · rename_i fails
    exact second fails

theorem AtMost.calls_le (h : AtMost bound x) : calls x ≤ bound := by
  have here := h 0
  rwa [Nat.zero_add] at here

end Rules

end Counted
