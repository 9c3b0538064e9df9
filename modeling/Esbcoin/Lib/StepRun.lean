import Mathlib.Data.List.Induction

/-!
# Runs of a deterministic step function

A system is a state type, an action type and a step function; whatever the
environment decides (a verdict, a clock reading, a disk error) is part of the
action, so a run is the list of its actions. `AllSteps` states a condition on
every action in the state it is performed in, and `AllSteps.invariant` is the
one induction the run theorems of this development use.
-/

namespace StepRun

universe u v

variable {S : Type u} {A : Type v}

/-- The state reached from `s` by the actions in order. -/
def run (step : S → A → S) (s : S) (actions : List A) : S := actions.foldl step s

@[simp] theorem run_nil (step : S → A → S) (s : S) : run step s [] = s := rfl

@[simp] theorem run_cons (step : S → A → S) (s : S) (a : A) (actions : List A) :
    run step s (a :: actions) = run step (step s a) actions := rfl

@[simp] theorem run_append (step : S → A → S) (s : S) (first second : List A) :
    run step s (first ++ second) = run step (run step s first) second := by
  simp [run]

variable {I : S → Prop} {s : S} {actions : List A}

/-- What every step preserves holds at the end of every run. -/
theorem run_invariant {step : S → A → S} (preserved : ∀ s a, I s → I (step s a)) (hs : I s)
    (actions : List A) : I (run step s actions) := by
  induction actions generalizing s with
  | nil => exact hs
  | cons a actions ih => exact ih (preserved s a hs)

/-- A step that can fail, on a state that may have failed already. -/
def orFail (step : S → A → Option S) (s : Option S) (a : A) : Option S := s.bind fun s => step s a

/-- The invariant rule for a step that can fail. -/
theorem orFail_invariant {step : S → A → Option S}
    (preserved : ∀ s a s', I s → step s a = some s' → I s') {s' : S} (hs : I s)
    (reached : run (orFail step) (some s) actions = some s') : I s' := by
  have always : ∀ s', run (orFail step) (some s) actions = some s' → I s' := by
    apply run_invariant (I := fun state => ∀ s, state = some s → I s)
    · rintro (_ | s) a holds s' done
      · cases done
      · exact preserved s a s' (holds s rfl) done
    · rintro s ⟨⟩
      exact hs
  exact always s' reached

/-- Every action of the run meets `P` in the state it is performed in. -/
def AllSteps (step : S → A → S) (P : S → A → Prop) : S → List A → Prop
  | _, [] => True
  | s, a :: actions => P s a ∧ AllSteps step P (step s a) actions

variable {step : S → A → S} {P Q : S → A → Prop}

@[simp] theorem allSteps_nil (s : S) : AllSteps step P s [] := trivial

@[simp] theorem allSteps_cons (s : S) (a : A) (actions : List A) :
    AllSteps step P s (a :: actions) ↔ P s a ∧ AllSteps step P (step s a) actions := Iff.rfl

/-- A run can be looked through, step by step. -/
instance decidableAllSteps [∀ s a, Decidable (P s a)] :
    (s : S) → (actions : List A) → Decidable (AllSteps step P s actions)
  | _, [] => isTrue trivial
  | s, a :: actions =>
    have := decidableAllSteps (step s a) actions
    inferInstanceAs (Decidable (P s a ∧ AllSteps step P (step s a) actions))

theorem allSteps_append (s : S) (first second : List A) :
    AllSteps step P s (first ++ second) ↔
      AllSteps step P s first ∧ AllSteps step P (run step s first) second := by
  induction first generalizing s with
  | nil => simp
  | cons a first ih => simp [ih, and_assoc]

/-- A condition on every step holds on every prefix of the run. -/
theorem AllSteps.restrict {s : S} {first actions : List A}
    (h : AllSteps step P s actions) (hp : first <+: actions) : AllSteps step P s first := by
  obtain ⟨rest, rfl⟩ := hp
  exact ((allSteps_append s first rest).mp h).1

theorem AllSteps.mono (hPQ : ∀ s a, P s a → Q s a) (h : AllSteps step P s actions) :
    AllSteps step Q s actions := by
  induction actions generalizing s with
  | nil => trivial
  | cons a actions ih => exact ⟨hPQ _ _ h.1, ih h.2⟩

theorem AllSteps.and (hP : AllSteps step P s actions) (hQ : AllSteps step Q s actions) :
    AllSteps step (fun s a => P s a ∧ Q s a) s actions := by
  induction actions generalizing s with
  | nil => trivial
  | cons a actions ih => exact ⟨⟨hP.1, hQ.1⟩, ih hP.2 hQ.2⟩

/-- The invariant rule: what every step meeting `P` preserves holds at the end
of every run whose steps all meet `P`. -/
theorem AllSteps.invariant (preserved : ∀ s a, I s → P s a → I (step s a))
    (h : AllSteps step P s actions) (hs : I s) : I (run step s actions) := by
  induction actions generalizing s with
  | nil => exact hs
  | cons a actions ih => exact ih h.2 (preserved s a hs h.1)

theorem AllSteps.of_invariant (preserved : ∀ s a, I s → P s a → I (step s a))
    (gives : ∀ s a, I s → P s a → Q s a) (h : AllSteps step P s actions) (hs : I s) :
    AllSteps step Q s actions := by
  induction actions generalizing s with
  | nil => trivial
  | cons a actions ih => exact ⟨gives s a hs h.1, ih h.2 (preserved s a hs h.1)⟩

/-- A condition that actions meet in every state. -/
theorem AllSteps.of_forall (h : ∀ a ∈ actions, ∀ s, P s a) (s : S) : AllSteps step P s actions := by
  induction actions generalizing s with
  | nil => trivial
  | cons a actions ih =>
    exact ⟨h a List.mem_cons_self s, ih (fun b member => h b (List.mem_cons_of_mem a member)) _⟩

/-- If `Q` says when a step keeps `P`, then `P` holds behind every part of a run exactly when
every step meets `Q`. -/
theorem forall_prefix_iff_allSteps {K : S → Prop} (invariant : ∀ s a, I s → I (step s a))
    (keeps : ∀ s a, I s → K s → (K (step s a) ↔ Q s a)) (hI : I s) (hK : K s) :
    (∀ part, part <+: actions → K (run step s part)) ↔ AllSteps step Q s actions := by
  induction actions generalizing s with
  | nil =>
    refine ⟨fun _ => trivial, fun _ part initial => ?_⟩
    rw [List.prefix_nil.mp initial]
    exact hK
  | cons a actions ih =>
    constructor
    · intro always
      have next : K (step s a) := always [a] ⟨actions, rfl⟩
      refine ⟨(keeps s a hI hK).mp next, (ih (invariant s a hI) next).mp fun part initial => ?_⟩
      exact always (a :: part) (List.cons_prefix_cons.mpr ⟨rfl, initial⟩)
    rintro ⟨good, rest⟩ part initial
    have next := (keeps s a hI hK).mpr good
    cases part with
    | nil => exact hK
    | cons b part =>
      obtain ⟨equal, shorter⟩ := List.cons_prefix_cons.mp initial
      subst equal
      exact (ih (invariant s b hI) next).mpr rest part shorter

/-- The invariant rule for a property of the state and of the actions behind it. -/
theorem AllSteps.history {I : List A → S → Prop} (nil : I [] s)
    (snoc : ∀ first a, I first (run step s first) → P (run step s first) a →
      I (first ++ [a]) (step (run step s first) a)) (h : AllSteps step P s actions) :
    I actions (run step s actions) := by
  induction actions using List.reverseRecOn with
  | nil => exact nil
  | append_singleton first a ih =>
    obtain ⟨hfirst, hlast⟩ := (allSteps_append s first [a]).mp h
    rw [run_append]
    exact snoc first a (ih hfirst) hlast.1

/-- A run of a step that can end it: it goes through, or one action ends it. -/
theorem foldlM_cases {E : Type*} {step : S → A → Except E S} {I : List A → S → Prop} (nil : I [] s)
    (snoc : ∀ first, ∀ a ∈ actions, ∀ s s', I first s → step s a = .ok s' → I (first ++ [a]) s') :
    (∃ s', actions.foldlM step s = .ok s' ∧ I actions s') ∨
      ∃ first a rest s' e, actions = first ++ a :: rest ∧ I first s' ∧ step s' a = .error e ∧
        actions.foldlM step s = .error e := by
  induction actions using List.reverseRecOn with
  | nil => exact Or.inl ⟨s, rfl, nil⟩
  | append_singleton actions a ih =>
    rw [List.foldlM_append]
    rcases ih fun first b member => snoc first b (List.mem_append_left _ member) with
      ⟨s', through, here⟩ | ⟨first, b, rest, s', e, parts, here, ends, ended⟩
    · cases last : step s' a with
      | ok s'' =>
        refine Or.inl ⟨s'', ?_, snoc _ a (List.mem_append_right _ (List.mem_singleton_self a)) s' s''
          here last⟩
        rw [through]
        exact congrArg (· >>= pure) last
      | error e =>
        refine Or.inr ⟨actions, a, [], s', e, rfl, here, last, ?_⟩
        rw [through]
        exact congrArg (· >>= pure) last
    · refine Or.inr ⟨first, b, rest ++ [a], s', e, ?_, here, ends, ?_⟩
      · rw [parts, List.append_assoc, List.cons_append]
      · rw [ended]
        rfl

end StepRun
