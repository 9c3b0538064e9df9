import Mathlib.Data.List.Basic

/-!
# Validation verdicts

What `CValidationState` (`src/main.h:513-590`) records when a check fails, and the ways in
which a validation function of `src/main.cpp` ends without success.
-/

namespace Esbcoin

/-- `REJECT_INVALID` (`main.h:107`). -/
def REJECT_INVALID : UInt8 := 0x10

/-- `REJECT_NONSTANDARD` (`main.h:110`). -/
def REJECT_NONSTANDARD : UInt8 := 0x40

/-- The arguments of `CValidationState::DoS`. -/
structure Rejection where
  level : Int
  chRejectCode : UInt8 := 0
  strRejectReason : String := ""
  corruptionPossible : Bool := false
deriving DecidableEq, Repr

/-- How a validation function fails. -/
inductive Failure where
  /-- `state.DoS(..)` or `state.Invalid(..)`: the data breaks a rule. -/
  | invalid (rejection : Rejection)
  /-- `state.Abort(..)` or `state.Error(..)`: the node has a problem of its own. -/
  | abort (strMessage : String)
  /-- `error(..)`: false is returned and the state is left as it was. -/
  | error (strMessage : String)
  /-- An assertion, an exception or a null pointer ends the call. -/
  | crash
deriving DecidableEq, Repr

/-- Fails if something is wrong. -/
def rejectIf (broken : Bool) (failure : Failure) : Except Failure Unit :=
  if broken then .error failure else .ok ()

variable {failure : Failure} {α β : Type} {x : Except Failure α}

@[simp] theorem rejectIf_eq_ok {broken : Bool} :
    rejectIf broken failure = .ok () ↔ broken = false := by
  cases broken <;> simp [rejectIf]

/-- What is not there is a crash. -/
def orCrash {α : Type} : Option α → Except Failure α
  | some a => .ok a
  | none => .error .crash

@[simp] theorem orCrash_eq_ok {x : Option α} {a : α} : orCrash x = .ok a ↔ x = some a := by
  cases x <;> simp [orCrash]

@[simp] theorem rejectIf_eq_crash {broken : Bool} :
    rejectIf broken failure = .error .crash ↔ broken = true ∧ failure = .crash := by
  cases broken <;> simp [rejectIf]

@[simp] theorem orCrash_eq_crash {x : Option α} : orCrash x = .error .crash ↔ x = none := by
  cases x <;> simp [orCrash]

/-- A sequence that succeeds has succeeded in its first part. -/
theorem bind_ok {f : α → Except Failure β} {b : β} :
    (x >>= f) = .ok b ↔ ∃ a, x = .ok a ∧ f a = .ok b := by
  cases x <;> simp [bind, Except.bind]

/-- `bind_ok` for a part without a result. -/
theorem bind_ok_unit {x : Except Failure Unit} {f : Unit → Except Failure β} {b : β} :
    (x >>= f) = .ok b ↔ x = .ok () ∧ f () = .ok b := by
  rw [bind_ok]
  exact ⟨fun ⟨_, hx, hf⟩ => ⟨hx, hf⟩, fun ⟨hx, hf⟩ => ⟨(), hx, hf⟩⟩

/-- What comes behind a part counts for the results of that part only. -/
theorem bind_congr_ok {f g : α → Except Failure β} (same : ∀ a, x = .ok a → f a = g a) :
    (x >>= f) = x >>= g := by
  cases x with
  | error failure => rfl
  | ok a => exact same a rfl

/-- A sequence fails where its first part does or, behind a success of it, its second. -/
theorem bind_error {f : α → Except Failure β} : (x >>= f) = .error failure ↔
      x = .error failure ∨ ∃ a, x = .ok a ∧ f a = .error failure := by
  cases x <;> simp [bind, Except.bind]

/-- `bind_error` for a part without a result. -/
theorem bind_error_unit {x : Except Failure Unit} {f : Unit → Except Failure β} :
    (x >>= f) = .error failure ↔ x = .error failure ∨ (x = .ok () ∧ f () = .error failure) := by
  rw [bind_error]
  exact or_congr_right ⟨fun ⟨_, hx, hf⟩ => ⟨hx, hf⟩, fun ⟨hx, hf⟩ => ⟨(), hx, hf⟩⟩

end Esbcoin
