import Esbcoin.Lib.AssocMap
import Mathlib.Data.Finset.Basic

/-!
# Inverse indexes

A map from keys to sets of values that is kept as the inverse of another map: `link` puts a value
into the set of a key, `unlink` takes it out and drops a set that has become empty. `Linked` is
what the index says, `Tidy` that it holds no empty set; both have one law for each operation, and
the operations are only reasoned about by these.
-/

universe u v

/-- A map from keys to sets of values. -/
abbrev InverseIndex (K : Type u) (V : Type v) := AssocMap K (Finset V)

namespace InverseIndex

variable {K : Type u} {V : Type v} [DecidableEq K] [DecidableEq V]

/-- The set under `k`, empty if there is none. -/
def valuesAt (m : InverseIndex K V) (k : K) : Finset V := (m.lookup k).getD ∅

/-- Put `v` into the set of `k`, which is made if there is none. -/
def link (m : InverseIndex K V) (k : K) (v : V) : InverseIndex K V :=
  m.insert k (insert v (m.valuesAt k))

/-- Take `v` out of the set of `k`, and drop the set if nothing is left. -/
def unlink (m : InverseIndex K V) (k : K) (v : V) : InverseIndex K V :=
  match m.lookup k with
  | none => m
  | some values => if values.erase v = ∅ then m.erase k else m.insert k (values.erase v)

/-- Put `v` into the sets of all the keys. -/
def linkAll (m : InverseIndex K V) (keys : List K) (v : V) : InverseIndex K V :=
  keys.foldl (fun m k => m.link k v) m

/-- Take `v` out of the sets of all the keys. -/
def unlinkAll (m : InverseIndex K V) (keys : List K) (v : V) : InverseIndex K V :=
  keys.foldl (fun m k => m.unlink k v) m

/-- The index says that `v` belongs to `k`. -/
def Linked (m : InverseIndex K V) (k : K) (v : V) : Prop :=
  ∃ values, m.lookup k = some values ∧ v ∈ values

/-- No set is empty. -/
def Tidy (m : InverseIndex K V) : Prop := ∀ k values, m.lookup k = some values → values ≠ ∅

variable {m : InverseIndex K V} {k : K} {v : V}

omit [DecidableEq V] in
theorem not_linked_empty (k : K) (v : V) : ¬ Linked (∅ : InverseIndex K V) k v := by
  rintro ⟨values, found, -⟩
  simp at found

omit [DecidableEq V] in
theorem tidy_empty : Tidy (∅ : InverseIndex K V) := by
  intro k values found
  simp at found

omit [DecidableEq V] in
theorem mem_valuesAt : v ∈ m.valuesAt k ↔ m.Linked k v := by
  unfold valuesAt Linked
  cases m.lookup k with
  | none => simp
  | some values => simp

theorem linked_link (k' : K) (v' : V) :
    (m.link k v).Linked k' v' ↔ m.Linked k' v' ∨ (k' = k ∧ v' = v) := by
  unfold link Linked
  rw [AssocMap.lookup_insert_eq]
  by_cases equal : k' = k
  · subst equal
    have inside : v' ∈ m.valuesAt k' ↔ ∃ values, m.lookup k' = some values ∧ v' ∈ values :=
      mem_valuesAt
    simp [inside, or_comm]
  · simp [equal]

theorem Tidy.link (tidy : m.Tidy) : (m.link k v).Tidy := by
  intro k' values found
  unfold InverseIndex.link at found
  rw [AssocMap.lookup_insert_eq] at found
  split at found
  · cases found
    exact Finset.insert_ne_empty v _
  · exact tidy k' values found

theorem linked_unlink (k' : K) (v' : V) :
    (m.unlink k v).Linked k' v' ↔ m.Linked k' v' ∧ ¬ (k' = k ∧ v' = v) := by
  unfold unlink Linked
  cases found : m.lookup k with
  | none =>
    by_cases equal : k' = k
    · subst equal
      simp [found]
    · simp [equal]
  | some values =>
    by_cases empty : values.erase v = ∅
    · simp only [empty, if_true, AssocMap.lookup_erase_eq]
      by_cases equal : k' = k
      · subst equal
        have only : v' ∈ values → v' = v := by
          intro member
          by_contra other
          have left := Finset.mem_erase.mpr ⟨other, member⟩
          rw [empty] at left
          simp at left
        simpa [found] using only
      · simp [equal]
    · simp only [empty, if_false, AssocMap.lookup_insert_eq]
      by_cases equal : k' = k
      · subst equal
        simp [found, and_comm]
      · simp [equal]

theorem Tidy.unlink (tidy : m.Tidy) : (m.unlink k v).Tidy := by
  intro k' values found
  unfold InverseIndex.unlink at found
  cases here : m.lookup k with
  | none =>
    rw [here] at found
    exact tidy k' values found
  | some old =>
    rw [here] at found
    by_cases empty : old.erase v = ∅
    · simp only [empty, if_true, AssocMap.lookup_erase_eq] at found
      split at found
      · cases found
      · exact tidy k' values found
    simp only [empty, if_false, AssocMap.lookup_insert_eq] at found
    split at found
    · cases found
      exact empty
    · exact tidy k' values found

theorem linked_linkAll (keys : List K) (k' : K) (v' : V) :
    (m.linkAll keys v).Linked k' v' ↔ m.Linked k' v' ∨ (k' ∈ keys ∧ v' = v) := by
  induction keys generalizing m with
  | nil => simp [linkAll]
  | cons key keys ih =>
    have step : m.linkAll (key :: keys) v = (m.link key v).linkAll keys v := rfl
    rw [step, ih, linked_link, List.mem_cons]
    tauto

theorem Tidy.linkAll (tidy : m.Tidy) (keys : List K) : (m.linkAll keys v).Tidy := by
  induction keys generalizing m with
  | nil => exact tidy
  | cons key keys ih => exact ih tidy.link

theorem linked_unlinkAll (keys : List K) (k' : K) (v' : V) :
    (m.unlinkAll keys v).Linked k' v' ↔ m.Linked k' v' ∧ ¬ (k' ∈ keys ∧ v' = v) := by
  induction keys generalizing m with
  | nil => simp [unlinkAll]
  | cons key keys ih =>
    have step : m.unlinkAll (key :: keys) v = (m.unlink key v).unlinkAll keys v := rfl
    rw [step, ih, linked_unlink, List.mem_cons]
    tauto

theorem Tidy.unlinkAll (tidy : m.Tidy) (keys : List K) : (m.unlinkAll keys v).Tidy := by
  induction keys generalizing m with
  | nil => exact tidy
  | cons key keys ih => exact ih tidy.unlink

end InverseIndex
