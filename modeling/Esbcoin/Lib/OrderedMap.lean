import Esbcoin.Lib.AssocMap
import Mathlib.Data.List.Sort

/-!
# Maps in the order of their keys

The entries of an association map in the order in which an ordered map visits them, and how many of
them meet a condition.
-/

universe u v

namespace AssocMap

variable {K : Type u} {V : Type v} [LinearOrder K] {m : AssocMap K V}

/-- The entries in the order of their keys. -/
def inOrder (m : AssocMap K V) : List (Sigma fun _ : K => V) :=
  m.entries.insertionSort fun e e' => e.1 ≤ e'.1

theorem inOrder_perm (m : AssocMap K V) : m.inOrder.Perm m.entries :=
  List.perm_insertionSort _ _

theorem mem_inOrder {e : Sigma fun _ : K => V} : e ∈ m.inOrder ↔ m.lookup e.1 = some e.2 := by
  rw [m.inOrder_perm.mem_iff]
  exact (AList.mem_lookup_iff ).symm

theorem nodup_keys_inOrder (m : AssocMap K V) : (m.inOrder.map Sigma.fst).Nodup :=
  (m.inOrder_perm.map Sigma.fst).nodup_iff.mpr m.nodupKeys

end AssocMap

namespace AssocMap

variable {K : Type u} {V : Type v} {m : AssocMap K V} {k : K} {v : V}

/-- How many entries meet a condition. -/
def count (m : AssocMap K V) (p : V → Bool) : Nat := m.entries.countP fun e => p e.2

@[simp] theorem count_empty (p : V → Bool) : count (∅ : AssocMap K V) p = 0 := rfl

/-- Every entry meets the condition or its negation. -/
theorem count_add_count_not (m : AssocMap K V) (p : V → Bool) :
    m.count p + m.count (fun v => !p v) = m.size := by
  rw [count, count, size, List.length_eq_countP_add_countP fun e => p e.2]
  congr 2
  funext e
  simp

variable [DecidableEq K]

theorem count_erase (found : m.lookup k = some v) (p : V → Bool) :
    count (m.erase k) p + (if p v then 1 else 0) = m.count p := by
  rw [count, count, (perm_of_lookup found).countP_eq, List.countP_cons]

theorem count_insert (absent : m.lookup k = none) (p : V → Bool) :
    count (m.insert k v) p = m.count p + if p v then 1 else 0 := by
  rw [count, AList.entries_insert, List.countP_cons,
    List.kerase_of_notMem_keys (AList.lookup_eq_none.mp absent)]
  rfl

theorem count_modify (found : m.lookup k = some v) (f : V → V) (p : V → Bool) :
    count (m.modify k f) p + (if p v then 1 else 0) = m.count p + if p (f v) then 1 else 0 := by
  have rest := count_erase found p
  have entries : (m.modify k f).entries = ⟨k, f v⟩ :: (m.erase k).entries := by
    rw [modify, found]
    rfl
  have both : count (m.modify k f) p = count (m.erase k) p + if p (f v) then 1 else 0 := by
    rw [count, entries, List.countP_cons]
    rfl
  omega

/-- Two changes that agree on the entry. -/
theorem modify_congr {f g : V → V} (found : m.lookup k = some v) (same : f v = g v) :
    AssocMap.modify m k f = AssocMap.modify m k g := by
  rw [modify, modify, found]
  simp only [same]

/-- A change that the condition does not see. -/
theorem count_modify_of_same {f : V → V} {p : V → Bool} (same : ∀ v, p (f v) = p v)
    (m : AssocMap K V) (k : K) : count (m.modify k f) p = m.count p := by
  cases found : m.lookup k with
  | none => rw [modify, found]
  | some v =>
    have change := count_modify found f p
    rw [same v] at change
    omega

end AssocMap
