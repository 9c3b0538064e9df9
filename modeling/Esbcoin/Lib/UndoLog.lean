import Mathlib.Data.List.Basic

/-!
# Undo logs

A list of operations is executed, each leaving an undo record, and is taken back in reverse order
from the records. The state taken back need not be of the type executed on (it may carry flags of
its own), and taking back may fail to restore what it should. Three families of facts are related
here, each indexed by the operations executed so far: `R` (the state taken back is right), `D` (it
is wrong for good) and `Good` (the operation is taken back rightly).
-/

namespace UndoLog

universe u v w x

variable {S : Type u} {Op : Type v} {U : Type w} {T : Type x}

/-- Execute the operations in order; the log pairs each with its undo record. -/
def execAll (exec : S → Op → Option (S × U)) (s : S) : List Op → Option (S × List (Op × U))
  | [] => some (s, [])
  | op :: ops =>
    match exec s op with
    | none => none
    | some (s', undo) =>
      match execAll exec s' ops with
      | none => none
      | some (final, log) => some (final, (op, undo) :: log)

/-- Takes back a whole log, the last step first. -/
def revertAll (revert : T → Op → U → T) (t : T) : List (Op × U) → T
  | [] => t
  | (op, undo) :: log => revert (revertAll revert t log) op undo

/-- Every operation is good in the state it is executed in. -/
def AllGood (exec : S → Op → Option (S × U)) (Good : List Op → S → Op → Prop) :
    List Op → S → List Op → Prop
  | _, _, [] => True
  | done, s, op :: ops =>
    Good done s op ∧ ∀ s' undo, exec s op = some (s', undo) →
      AllGood exec Good (done ++ [op]) s' ops

/-- Whether all operations are good is found by executing them. -/
instance decidableAllGood {exec : S → Op → Option (S × U)} {Good : List Op → S → Op → Prop}
    [∀ done s op, Decidable (Good done s op)] :
    ∀ done s ops, Decidable (AllGood exec Good done s ops)
  | _, _, [] => isTrue trivial
  | done, s, op :: ops =>
    match hexec : exec s op with
    | none => decidable_of_iff (Good done s op) (by simp [AllGood, hexec])
    | some (s', _) =>
      have := (decidableAllGood (done ++ [op]) s' ops : Decidable (AllGood exec Good _ _ _))
      decidable_of_iff (Good done s op ∧ AllGood exec Good (done ++ [op]) s' ops)
        (by simp [AllGood, hexec])

section Append

variable {exec : S → Op → Option (S × U)} {revert : T → Op → U → T}

theorem execAll_cons {s final : S} {op : Op} {ops : List Op} {log : List (Op × U)}
    (h : execAll exec s (op :: ops) = some (final, log)) :
    ∃ s' undo rest, exec s op = some (s', undo) ∧ execAll exec s' ops = some (final, rest) ∧
      log = (op, undo) :: rest := by
  simp only [execAll] at h
  split at h
  · cases h
  rename_i s' undo hexec
  split at h
  · cases h
  · rename_i final' rest hrest
    obtain ⟨rfl, rfl⟩ := Prod.mk.inj (Option.some.inj h)
    exact ⟨s', undo, rest, hexec, hrest, rfl⟩

theorem execAll_append {s : S} {first second : List Op} :
    execAll exec s (first ++ second) =
      (execAll exec s first).bind fun (middle, log) =>
        (execAll exec middle second).map fun (final, rest) => (final, log ++ rest) := by
  induction first generalizing s with
  | nil =>
    simp only [List.nil_append, execAll, Option.bind_some]
    cases execAll exec s second <;> rfl
  | cons op first ih =>
    simp only [List.cons_append, execAll]
    cases exec s op with
    | none => rfl
    | some result =>
      obtain ⟨s', undo⟩ := result
      simp only [ih]
      cases execAll exec s' first with
      | none => rfl
      | some result =>
        obtain ⟨middle, log⟩ := result
        simp only [Option.bind_some]
        cases execAll exec middle second <;> rfl

/-- The log names the operations. -/
theorem map_fst_of_execAll {s final : S} {ops : List Op} {log : List (Op × U)}
    (h : execAll exec s ops = some (final, log)) : log.map Prod.fst = ops := by
  induction ops generalizing s log with
  | nil =>
    obtain ⟨rfl, rfl⟩ := Prod.mk.inj (Option.some.inj h)
    rfl
  | cons op ops ih =>
    obtain ⟨s', undo, rest, -, hrest, rfl⟩ := execAll_cons h
    simp [ih hrest]

theorem revertAll_append (t : T) (first second : List (Op × U)) :
    revertAll revert t (first ++ second) = revertAll revert (revertAll revert t second) first := by
  induction first with
  | nil => rfl
  | cons entry first ih =>
    obtain ⟨op, undo⟩ := entry
    rw [List.cons_append, revertAll, ih]
    rfl

end Append

section Rules

variable {exec : S → Op → Option (S × U)} {revert : T → Op → U → T}
variable {I : S → Prop} {P : Op → U → Prop}
variable {R D : List Op → S → T → Prop} {Good : List Op → S → Op → Prop}

variable {ops done : List Op} {final s : S} {log : List (Op × U)}

/-- What good operations leave in the log. -/
theorem log_of_allGood
    (entry : ∀ done s op s' undo, exec s op = some (s', undo) → Good done s op → P op undo)
    (hexec : execAll exec s ops = some (final, log)) (hgood : AllGood exec Good done s ops) :
    ∀ e ∈ log, P e.1 e.2 := by
  induction ops generalizing done s log with
  | nil =>
    obtain ⟨rfl, rfl⟩ := Prod.mk.inj (Option.some.inj hexec)
    simp
  | cons op ops ih =>
    obtain ⟨s', undo, rest, hop, hrest, rfl⟩ := execAll_cons hexec
    intro e member
    rcases List.mem_cons.mp member with rfl | member
    · exact entry _ _ _ _ _ hop hgood.1
    · exact ih hrest (hgood.2 s' undo hop) e member

/-- If every operation was good, the whole log is taken back rightly. -/
theorem revertAll_of_allGood
    (inv : ∀ s op s' undo, I s → P op undo → exec s op = some (s', undo) → I s')
    (good : ∀ done s op s' undo t, I s → P op undo → exec s op = some (s', undo) →
      Good done s op → R (done ++ [op]) s' t → R done s (revert t op undo)) {t : T} (hs : I s)
    (hexec : execAll exec s ops = some (final, log)) (hlog : ∀ e ∈ log, P e.1 e.2)
    (hgood : AllGood exec Good done s ops) (h : R (done ++ ops) final t) :
    R done s (revertAll revert t log) := by
  induction ops generalizing done s log with
  | nil =>
    obtain ⟨rfl, rfl⟩ := Prod.mk.inj (Option.some.inj hexec)
    simpa [revertAll] using h
  | cons op ops ih =>
    obtain ⟨s', undo, rest, hop, hrest, rfl⟩ := execAll_cons hexec
    have here := hlog (op, undo) (by simp)
    apply good _ _ _ _ _ _ hs here hop hgood.1
    apply ih (inv _ _ _ _ hs here hop) hrest (fun e member => hlog e (by simp [member]))
      (hgood.2 s' undo hop)
    rwa [List.append_assoc]

/-- One operation that was not good makes the outcome wrong: the last such operation is
reached with everything right, and what it breaks stays broken. -/
theorem revertAll_of_not_allGood
    (inv : ∀ s op s' undo, I s → P op undo → exec s op = some (s', undo) → I s')
    (good : ∀ done s op s' undo t, I s → P op undo → exec s op = some (s', undo) →
      Good done s op → R (done ++ [op]) s' t → R done s (revert t op undo))
    (bad : ∀ done s op s' undo t, I s → P op undo → exec s op = some (s', undo) →
      ¬ Good done s op → R (done ++ [op]) s' t → D done s (revert t op undo))
    (stays : ∀ done s op s' undo t, I s → P op undo → exec s op = some (s', undo) →
      D (done ++ [op]) s' t → D done s (revert t op undo)) {t : T} (hs : I s)
    (hexec : execAll exec s ops = some (final, log)) (hlog : ∀ e ∈ log, P e.1 e.2)
    (hbad : ¬ AllGood exec Good done s ops) (h : R (done ++ ops) final t) :
    D done s (revertAll revert t log) := by
  induction ops generalizing done s log with
  | nil => exact absurd trivial hbad
  | cons op ops ih =>
    obtain ⟨s', undo, rest, hop, hrest, rfl⟩ := execAll_cons hexec
    have reached : R ((done ++ [op]) ++ ops) final t := by rwa [List.append_assoc]
    have here := hlog (op, undo) (by simp)
    have hs' := inv _ _ _ _ hs here hop
    have hrestLog : ∀ e ∈ rest, P e.1 e.2 := fun e member => hlog e (by simp [member])
    by_cases later : AllGood exec Good (done ++ [op]) s' ops
    · apply bad _ _ _ _ _ _ hs here hop
      · intro hgood
        apply hbad
        refine ⟨hgood, fun s'' undo' hop' => ?_⟩
        obtain ⟨rfl, -⟩ := Prod.mk.inj (Option.some.inj (hop.symm.trans hop'))
        exact later
      · exact revertAll_of_allGood inv good hs' hrest hrestLog later reached
    · exact stays _ _ _ _ _ _ hs here hop (ih hs' hrest hrestLog later reached)

end Rules

end UndoLog
