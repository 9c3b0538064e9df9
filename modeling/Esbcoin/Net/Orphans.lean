import Esbcoin.Lib.InverseIndex
import Esbcoin.Lib.StepRun
import Esbcoin.Validation.CheckBlock
import Mathlib.Data.List.MinMax

/-!
# Orphan transactions

The transactions whose parents are not known yet, `mapOrphanTransactions` and
`mapOrphanTransactionsByPrev` (`src/main.cpp:601-674`). The second map is the inverse of the first
by the hashes of the previous outputs.
-/

namespace Esbcoin

open AssocMap

/-- `NodeId` (`net.h`). -/
abbrev NodeId := Int

/-- `COrphanTx` (`main.cpp:107-110`). -/
structure COrphanTx where
  tx : CTransaction
  fromPeer : NodeId
deriving DecidableEq, Repr

/-- The hashes of the transactions that the inputs of `tx` spend from. -/
def CTransaction.prevHashes (tx : CTransaction) : List UInt256 :=
  tx.vin.map fun txin => txin.prevout.hash

/-- `mapOrphanTransactions` and `mapOrphanTransactionsByPrev` (`main.cpp:111-112`). -/
structure OrphanState where
  mapOrphanTransactions : AssocMap UInt256 COrphanTx
  mapOrphanTransactionsByPrev : InverseIndex UInt256 UInt256

namespace OrphanState

/-- No orphans. -/
def init : OrphanState := ⟨∅, ∅⟩

end OrphanState

/-- `AddOrphanTx` (`main.cpp:601-629`). -/
def addOrphanTx (s : OrphanState) (tx : CTransaction) (peer : NodeId) : OrphanState × Bool :=
  let hash := tx.getHash
  if s.mapOrphanTransactions.contains hash then (s, false)
  else if tx.getSerializeSize > 5000 then (s, false)
  else
    (⟨s.mapOrphanTransactions.insert hash ⟨tx, peer⟩,
      s.mapOrphanTransactionsByPrev.linkAll tx.prevHashes hash⟩, true)

/-- `EraseOrphanTx` (`main.cpp:631-645`). -/
def eraseOrphanTx (s : OrphanState) (hash : UInt256) : OrphanState :=
  match s.mapOrphanTransactions.lookup hash with
  | none => s
  | some orphan =>
    ⟨s.mapOrphanTransactions.erase hash,
      s.mapOrphanTransactionsByPrev.unlinkAll orphan.tx.prevHashes hash⟩

/-- `EraseOrphansFor` (`main.cpp:647-659`). The iterator is moved on before its entry is erased,
so the loop visits the entries there were when it began. -/
def eraseOrphansFor (s : OrphanState) (peer : NodeId) : OrphanState :=
  s.mapOrphanTransactions.entries.foldl (fun s entry =>
    if entry.2.fromPeer = peer then eraseOrphanTx s entry.2.tx.getHash else s) s

/-- The entry `LimitOrphanTxSize` evicts (`main.cpp:667-670`): the first one whose key is not less
than `randomhash`, else the first one of all. -/
def evicted (s : OrphanState) (randomhash : UInt256) : Option UInt256 :=
  let keys := s.mapOrphanTransactions.keys
  match (keys.filter fun key => randomhash ≤ key).argmin BitVec.toNat with
  | some key => some key
  | none => keys.argmin BitVec.toNat

theorem lookup_of_evicted {s : OrphanState} {randomhash key : UInt256}
    (h : evicted s randomhash = some key) :
    ∃ orphan, s.mapOrphanTransactions.lookup key = some orphan := by
  have member : key ∈ s.mapOrphanTransactions.keys := by
    unfold evicted at h
    dsimp only at h
    split at h
    · rename_i first found
      cases h
      exact (List.mem_filter.mp (List.argmin_mem found)).1
    · exact List.argmin_mem h
  exact Option.isSome_iff_exists.mp (AList.lookup_isSome.mpr (AList.mem_keys.mpr member))

theorem size_eraseOrphanTx {s : OrphanState} {hash : UInt256} {orphan : COrphanTx}
    (found : s.mapOrphanTransactions.lookup hash = some orphan) :
    (eraseOrphanTx s hash).mapOrphanTransactions.size + 1 = s.mapOrphanTransactions.size := by
  unfold eraseOrphanTx
  rw [found]
  exact size_erase found

/-- `LimitOrphanTxSize` (`main.cpp:662-674`) from the eviction `nEvicted` on; `getRandHash` are
the answers of `GetRandHash` in order. Each round takes one entry away. -/
def limitOrphanTxSize (nMaxOrphans : Nat) (getRandHash : Nat → UInt256) (s : OrphanState)
    (nEvicted : Nat) : OrphanState × Nat :=
  if s.mapOrphanTransactions.size > nMaxOrphans then
    match h : evicted s (getRandHash nEvicted) with
    | some key => limitOrphanTxSize nMaxOrphans getRandHash (eraseOrphanTx s key) (nEvicted + 1)
    | none => (s, nEvicted)
  else (s, nEvicted)
termination_by s.mapOrphanTransactions.size
decreasing_by
  obtain ⟨orphan, found⟩ := lookup_of_evicted h
  have shrinks := size_eraseOrphanTx found
  omega

/-- What can happen to the orphans. -/
inductive OrphanAction where
  | addOrphanTx (tx : CTransaction) (peer : NodeId)
  | eraseOrphanTx (hash : UInt256)
  | eraseOrphansFor (peer : NodeId)
  | limitOrphanTxSize (nMaxOrphans : Nat) (getRandHash : Nat → UInt256)

/-- A step of the orphans. -/
def orphanStep (s : OrphanState) : OrphanAction → OrphanState
  | .addOrphanTx tx peer => (addOrphanTx s tx peer).1
  | .eraseOrphanTx hash => eraseOrphanTx s hash
  | .eraseOrphansFor peer => eraseOrphansFor s peer
  | .limitOrphanTxSize nMaxOrphans getRandHash =>
    (limitOrphanTxSize nMaxOrphans getRandHash s 0).1

namespace OrphanState

/-- The orphan `hash` is stored and has an input from `prev`. -/
def Spends (s : OrphanState) (hash prev : UInt256) : Prop :=
  ∃ orphan, s.mapOrphanTransactions.lookup hash = some orphan ∧ prev ∈ orphan.tx.prevHashes

/-- The two maps belong together. -/
structure Indexed (s : OrphanState) : Prop where
  filed : ∀ hash orphan, s.mapOrphanTransactions.lookup hash = some orphan →
    orphan.tx.getHash = hash
  exact : ∀ prev hash, s.mapOrphanTransactionsByPrev.Linked prev hash ↔ s.Spends hash prev
  tidy : s.mapOrphanTransactionsByPrev.Tidy

theorem indexed_init : init.Indexed where
  filed := by
    intro hash orphan found
    simp [init] at found
  exact := by
    intro prev hash
    refine ⟨fun linked => absurd linked (InverseIndex.not_linked_empty prev hash), ?_⟩
    rintro ⟨orphan, found, -⟩
    simp [init] at found
  tidy := InverseIndex.tidy_empty

variable {s : OrphanState}

theorem Indexed.addOrphanTx (h : s.Indexed) (tx : CTransaction) (peer : NodeId) :
    (addOrphanTx s tx peer).1.Indexed := by
  unfold Esbcoin.addOrphanTx
  dsimp only
  split
  · exact h
  rename_i absent
  split
  · exact h
  have fresh : s.mapOrphanTransactions.lookup tx.getHash = none := by
    rw [← contains_eq_false_iff]
    simpa using absent
  refine ⟨?_, ?_, h.tidy.linkAll _⟩
  · intro hash orphan found
    rw [lookup_insert_eq] at found
    split at found
    · rename_i equal
      cases found
      exact equal.symm
    · exact h.filed hash orphan found
  intro prev hash
  rw [InverseIndex.linked_linkAll, h.exact]
  unfold Spends
  rw [lookup_insert_eq]
  by_cases equal : hash = tx.getHash
  · subst equal
    simp [fresh]
  · simp [equal]

theorem Indexed.eraseOrphanTx (h : s.Indexed) (hash : UInt256) :
    (eraseOrphanTx s hash).Indexed := by
  unfold Esbcoin.eraseOrphanTx
  cases found : s.mapOrphanTransactions.lookup hash with
  | none => exact h
  | some orphan =>
    refine ⟨?_, ?_, h.tidy.unlinkAll _⟩
    · intro other orphan' found'
      rw [lookup_erase_eq] at found'
      split at found'
      · cases found'
      · exact h.filed other orphan' found'
    intro prev other
    rw [InverseIndex.linked_unlinkAll, h.exact]
    unfold Spends
    rw [lookup_erase_eq]
    by_cases equal : other = hash
    · subst equal
      simp [found]
    · simp [equal]

theorem Indexed.eraseOrphansFor (h : s.Indexed) (peer : NodeId) :
    (eraseOrphansFor s peer).Indexed := by
  unfold Esbcoin.eraseOrphansFor
  generalize s.mapOrphanTransactions.entries = entries
  induction entries generalizing s with
  | nil => exact h
  | cons entry entries ih =>
    rw [List.foldl_cons]
    split
    · exact ih (h.eraseOrphanTx _)
    · exact ih h

theorem Indexed.limitOrphanTxSize (h : s.Indexed) (nMaxOrphans : Nat)
    (getRandHash : Nat → UInt256) (nEvicted : Nat) :
    (limitOrphanTxSize nMaxOrphans getRandHash s nEvicted).1.Indexed := by
  fun_induction Esbcoin.limitOrphanTxSize nMaxOrphans getRandHash s nEvicted with
  | case1 s nEvicted more key evicted ih => exact ih (h.eraseOrphanTx key)
  | case2 s nEvicted more evicted => exact h
  | case3 s nEvicted enough => exact h

theorem Indexed.orphanStep (h : s.Indexed) (action : OrphanAction) :
    (orphanStep s action).Indexed := by
  cases action with
  | addOrphanTx tx peer => exact h.addOrphanTx tx peer
  | eraseOrphanTx hash => exact h.eraseOrphanTx hash
  | eraseOrphansFor peer => exact h.eraseOrphansFor peer
  | limitOrphanTxSize nMaxOrphans getRandHash => exact h.limitOrphanTxSize nMaxOrphans getRandHash 0

end OrphanState

theorem evicted_isSome {s : OrphanState} (more : 0 < s.mapOrphanTransactions.size)
    (randomhash : UInt256) : evicted s randomhash ≠ none := by
  intro none
  unfold evicted at none
  dsimp only at none
  split at none
  · cases none
  have empty : s.mapOrphanTransactions.keys = [] := List.argmin_eq_none.mp none
  have nothing : s.mapOrphanTransactions.entries = [] := List.map_eq_nil_iff.mp empty
  rw [size, nothing] at more
  exact absurd more (Nat.lt_irrefl 0)

/-- The eviction loop ends with its condition false. -/
theorem size_limitOrphanTxSize (nMaxOrphans : Nat) (getRandHash : Nat → UInt256)
    (s : OrphanState) (nEvicted : Nat) :
    (limitOrphanTxSize nMaxOrphans getRandHash s nEvicted).1.mapOrphanTransactions.size
      ≤ nMaxOrphans := by
  fun_induction limitOrphanTxSize nMaxOrphans getRandHash s nEvicted with
  | case1 s nEvicted more key evicted ih => exact ih
  | case2 s nEvicted more evicted => exact absurd evicted (evicted_isSome (by omega) _)
  | case3 s nEvicted enough => exact Nat.le_of_not_lt enough

/-- After any sequence of calls the index by previous transaction is exact and without empty sets,
every orphan is found by each of its inputs, and a size limit is met. -/
theorem orphans_indexed (actions : List OrphanAction) :
    let s := StepRun.run orphanStep OrphanState.init actions
    (∀ prev hash, s.mapOrphanTransactionsByPrev.Linked prev hash ↔
        ∃ orphan, s.mapOrphanTransactions.lookup hash = some orphan ∧
          ∃ txin ∈ orphan.tx.vin, txin.prevout.hash = prev) ∧
      (∀ prev hashes, s.mapOrphanTransactionsByPrev.lookup prev = some hashes → hashes ≠ ∅) ∧
      (∀ hash orphan, s.mapOrphanTransactions.lookup hash = some orphan →
        ∀ txin ∈ orphan.tx.vin, ∃ hashes,
          s.mapOrphanTransactionsByPrev.lookup txin.prevout.hash = some hashes ∧
            orphan.tx.getHash ∈ hashes) ∧
      ∀ nMaxOrphans getRandHash,
        (limitOrphanTxSize nMaxOrphans getRandHash s 0).1.mapOrphanTransactions.size
          ≤ nMaxOrphans := by
  intro s
  have indexed : s.Indexed :=
    StepRun.run_invariant (fun _ a h => h.orphanStep a) OrphanState.indexed_init actions
  refine ⟨?_, indexed.tidy, ?_, fun nMaxOrphans getRandHash =>
    size_limitOrphanTxSize nMaxOrphans getRandHash s 0⟩
  · intro prev hash
    rw [indexed.exact]
    simp [OrphanState.Spends, CTransaction.prevHashes]
  intro hash orphan found txin member
  have spends : s.Spends hash txin.prevout.hash :=
    ⟨orphan, found, List.mem_map_of_mem member⟩
  rw [indexed.filed hash orphan found]
  exact (indexed.exact _ _).mpr spends

end Esbcoin
