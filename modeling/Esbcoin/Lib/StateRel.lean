import Mathlib.Data.List.Basic

/-!
# What a call keeps

A call of `EStateM` ends in a state whether it succeeds or fails. `Keeps R x` says that the state at
the end is related by `R` to the one at the start, whatever the outcome; for a relation that is
reflexive and transitive it goes through sequences.
-/

namespace StateRel

universe u

variable {ε σ α β : Type u}

/-- The state at the end, whatever the outcome. -/
def stateOf : EStateM.Result ε σ α → σ
  | .ok _ s => s
  | .error _ s => s

@[simp] theorem stateOf_ok (a : α) (s : σ) : stateOf (.ok a s : EStateM.Result ε σ α) = s := rfl

@[simp] theorem stateOf_error (e : ε) (s : σ) :
    stateOf (.error e s : EStateM.Result ε σ α) = s := rfl

theorem get_state (s : σ) : (EStateM.get s : EStateM.Result ε σ σ) = .ok s s := rfl

theorem modifyGet_state (f : σ → α × σ) (s : σ) :
    (EStateM.modifyGet f s : EStateM.Result ε σ α) = .ok (f s).1 (f s).2 := rfl

/-- Whatever the outcome, the state at the end is related to the one at the start. -/
def Keeps (R : σ → σ → Prop) (x : EStateM ε σ α) : Prop := ∀ s, R s (stateOf (x s))

variable {R : σ → σ → Prop}

/-- A call that changes no state. -/
theorem Keeps.of_same (refl : ∀ s, R s s) {x : EStateM ε σ α} (h : ∀ s, stateOf (x s) = s) :
    Keeps R x := by
  intro s
  rw [h s]
  exact refl s

theorem Keeps.pure (refl : ∀ s, R s s) (a : α) : Keeps R (Pure.pure a : EStateM ε σ α) :=
  Keeps.of_same refl fun _ => rfl

theorem Keeps.get (refl : ∀ s, R s s) : Keeps R (MonadState.get : EStateM ε σ σ) :=
  Keeps.of_same refl fun _ => rfl

theorem Keeps.bind (trans : ∀ a b c, R a b → R b c → R a c) {x : EStateM ε σ α}
    {k : α → EStateM ε σ β} (first : Keeps R x) (rest : ∀ a, Keeps R (k a)) :
    Keeps R (x >>= k) := by
  intro s
  have here := first s
  show R s (stateOf (EStateM.bind x k s))
  unfold EStateM.bind
  cases result : x s with
  | ok a s' =>
    rw [result] at here
    exact trans _ _ _ here (rest a s')
  | error e s' =>
    rw [result] at here
    exact here

/-- What a call that succeeds has kept. -/
theorem Keeps.of_ok {x : EStateM ε σ α} (h : Keeps R x) {s s' : σ} {a : α}
    (result : x s = .ok a s') : R s s' := by
  simpa [result] using h s

end StateRel
