import Esbcoin.Chain.Params
import Esbcoin.Coins.CCoins
import Esbcoin.Lib.AssocMap
import Esbcoin.Lib.Binary64
import Esbcoin.Lib.StepRun
import Mathlib.Data.List.Sort

/-!
# The memory pool

Rendering of `CTxMemPool` (`src/txmempool.h:112-183`, `src/txmempool.cpp:406-538, 675-701`): the
transactions `mapTx`, their inputs `mapNextTx`, their summed size and the deltas of
`PrioritiseTransaction`. A pointer to a transaction of the pool is the key of its entry. The fee
estimator is left out.
-/

namespace Esbcoin

/-- The fields of `CTxMemPoolEntry` (`txmempool.h:39-61`) that the pool itself reads. -/
structure CTxMemPoolEntry where
  tx : CTransaction
  nFee : Int
  nTxSize : Nat
  nTime : Int
  nHeight : UInt32
deriving DecidableEq, Repr

/-- `CInPoint` (`txmempool.h:66-84`): the key of the entry whose transaction is pointed to, and the
input. -/
structure CInPoint where
  ptx : UInt256
  n : Nat
deriving DecidableEq, Repr

/-- `CTxMemPool` (`txmempool.h:112-183`). -/
structure CTxMemPool where
  mapTx : AssocMap UInt256 CTxMemPoolEntry
  mapNextTx : AssocMap COutPoint CInPoint
  /-- Priority and fee; the priority is a double. -/
  mapDeltas : AssocMap UInt256 (ℚ × Int)
  totalTxSize : Nat
  nTransactionsUpdated : UInt32

namespace CTxMemPool

/-- The pool of a node that has just started. -/
def init : CTxMemPool := ⟨∅, ∅, ∅, 0, 0⟩

/-- `CTxMemPool::exists`. -/
def contains (pool : CTxMemPool) (hash : UInt256) : Bool := pool.mapTx.contains hash

/-- The loop of `addUnchecked` over the inputs, from input `i` on. -/
def fileInputs (hash : UInt256) (mapNextTx : AssocMap COutPoint CInPoint) :
    Nat → List CTxIn → AssocMap COutPoint CInPoint
  | _, [] => mapNextTx
  | i, txin :: vin => fileInputs hash (mapNextTx.insert txin.prevout ⟨hash, i⟩) (i + 1) vin

/-- `CTxMemPool::addUnchecked` (`txmempool.cpp:406-421`). -/
def addUnchecked (pool : CTxMemPool) (hash : UInt256) (entry : CTxMemPoolEntry) : CTxMemPool :=
  { pool with
    mapTx := pool.mapTx.insert hash entry
    mapNextTx := fileInputs hash pool.mapNextTx 0 entry.tx.vin
    nTransactionsUpdated := pool.nTransactionsUpdated + 1
    totalTxSize := pool.totalTxSize + entry.nTxSize }

/-- The hashes of the transactions that spend the outputs of `hash` with the given numbers;
`none` where a pointer to a transaction that is not in the pool is followed. -/
def childHashes (pool : CTxMemPool) (hash : UInt256) : List Nat → Option (List UInt256)
  | [] => some []
  | i :: outputs =>
    match pool.mapNextTx.lookup ⟨hash, UInt32.ofNat i⟩ with
    | none => childHashes pool hash outputs
    | some inPoint =>
      (pool.mapTx.lookup inPoint.ptx).bind fun child =>
        (childHashes pool hash outputs).map fun hashes => child.tx.getHash :: hashes

/-- Take one entry out (`txmempool.cpp:456-462`). -/
def removeEntry (pool : CTxMemPool) (hash : UInt256) (entry : CTxMemPoolEntry) : CTxMemPool :=
  { pool with
    mapNextTx := pool.mapNextTx.eraseAll entry.tx.prevouts
    totalTxSize := pool.totalTxSize - entry.nTxSize
    mapTx := pool.mapTx.erase hash
    nTransactionsUpdated := pool.nTransactionsUpdated + 1 }

/-- The loop of `remove` over `txToRemove` (`txmempool.cpp:442-463`). -/
def removeLoop (fRecursive : Bool) (pool : CTxMemPool) (removed : List CTransaction) :
    List UInt256 → Option (CTxMemPool × List CTransaction)
  | [] => some (pool, removed)
  | hash :: txToRemove =>
    match _found : pool.mapTx.lookup hash with
    | none => removeLoop fRecursive pool removed txToRemove
    | some entry =>
      match if fRecursive then pool.childHashes hash (List.range entry.tx.vout.length)
          else some [] with
      | none => none
      | some children =>
        removeLoop fRecursive (pool.removeEntry hash entry) (removed ++ [entry.tx])
          (txToRemove ++ children)
termination_by txToRemove => (pool.mapTx.size, txToRemove.length)
decreasing_by
  · exact Prod.Lex.right _ (Nat.lt_succ_self _)
  · have shrinks := AssocMap.size_erase _found
    exact Prod.Lex.left _ _ (Nat.lt_of_succ_le shrinks.le)

/-- `CTxMemPool::remove` (`txmempool.cpp:424-466`): the pool, and the list `removed` with what was
taken out. -/
def remove (pool : CTxMemPool) (origTx : CTransaction) (removed : List CTransaction)
    (fRecursive : Bool) : Option (CTxMemPool × List CTransaction) :=
  (if fRecursive && !pool.contains origTx.getHash then
      pool.childHashes origTx.getHash (List.range origTx.vout.length)
    else some []).bind fun children =>
      removeLoop fRecursive pool removed (origTx.getHash :: children)

/-- What `removeCoinbaseSpends` asks of the rest of the node. -/
structure MaturityEnv where
  params : CChainParams
  /-- `pcoins->AccessCoins`. -/
  accessCoins : UInt256 → Option CCoins
  nMemPoolHeight : UInt32
  fSanityCheck : Bool

/-- Does an input make `removeCoinbaseSpends` remove its transaction (`txmempool.cpp:476-484`)?
`none` where the assertion fails; the subtraction is one of unsigned numbers. -/
def spendsImmature (env : MaturityEnv) (pool : CTxMemPool) (txin : CTxIn) : Option Bool :=
  if pool.contains txin.prevout.hash then some false
  else
    match env.accessCoins txin.prevout.hash with
    | none => if env.fSanityCheck then none else some true
    | some coins =>
      some ((coins.fCoinBase || coins.fCoinStake) &&
        env.nMemPoolHeight - UInt32.ofInt coins.nHeight < UInt32.ofInt env.params.maturity)

/-- The loop over the inputs, which ends at the first one that decides. -/
def anyImmature (env : MaturityEnv) (pool : CTxMemPool) : List CTxIn → Option Bool
  | [] => some false
  | txin :: vin =>
    (spendsImmature env pool txin).bind fun immature =>
      if immature then some true else anyImmature env pool vin

/-- The transactions that `removeCoinbaseSpends` finds. -/
def transactionsToRemove (env : MaturityEnv) (pool : CTxMemPool) : Option (List CTransaction) :=
  let entries := pool.mapTx.entries.insertionSort fun a b => a.1.toNat ≤ b.1.toNat
  entries.foldrM (fun entry txs =>
    (anyImmature env pool entry.2.tx.vin).map fun immature =>
      if immature then entry.2.tx :: txs else txs) []

/-- `remove` of every transaction of a list, with all that depends on them. -/
def removeAll (pool : CTxMemPool) : List CTransaction → Option CTxMemPool
  | [] => some pool
  | tx :: txs => (pool.remove tx [] true).bind fun result => removeAll result.1 txs

/-- `CTxMemPool::removeCoinbaseSpends` (`txmempool.cpp:468-491`). -/
def removeCoinbaseSpends (pool : CTxMemPool) (env : MaturityEnv) : Option CTxMemPool :=
  (transactionsToRemove env pool).bind pool.removeAll

/-- The loop of `removeConflicts` over the inputs. -/
def removeSpenders (tx : CTransaction) (pool : CTxMemPool) (removed : List CTransaction) :
    List CTxIn → Option (CTxMemPool × List CTransaction)
  | [] => some (pool, removed)
  | txin :: vin =>
    match pool.mapNextTx.lookup txin.prevout with
    | none => removeSpenders tx pool removed vin
    | some inPoint =>
      (pool.mapTx.lookup inPoint.ptx).bind fun txConflict =>
        if txConflict.tx.getHash ≠ tx.getHash then
          (pool.remove txConflict.tx removed true).bind fun result =>
            removeSpenders tx result.1 result.2 vin
        else removeSpenders tx pool removed vin

/-- `CTxMemPool::removeConflicts` (`txmempool.cpp:493-507`). -/
def removeConflicts (pool : CTxMemPool) (tx : CTransaction) (removed : List CTransaction) :
    Option (CTxMemPool × List CTransaction) :=
  removeSpenders tx pool removed tx.vin

/-- `CTxMemPool::ClearPrioritisation` (`txmempool.cpp:697-701`). -/
def clearPrioritisation (pool : CTxMemPool) (hash : UInt256) : CTxMemPool :=
  { pool with mapDeltas := pool.mapDeltas.erase hash }

/-- `CTxMemPool::removeForBlock` (`txmempool.cpp:512-528`). -/
def removeForBlock (pool : CTxMemPool) (conflicts : List CTransaction) :
    List CTransaction → Option (CTxMemPool × List CTransaction)
  | [] => some (pool, conflicts)
  | tx :: vtx =>
    (pool.remove tx [] false).bind fun dummy =>
      (dummy.1.removeConflicts tx conflicts).bind fun result =>
        removeForBlock (result.1.clearPrioritisation tx.getHash) result.2 vtx

/-- `CTxMemPool::clear` (`txmempool.cpp:531-538`). -/
def clear (pool : CTxMemPool) : CTxMemPool :=
  { pool with
    mapTx := ∅
    mapNextTx := ∅
    totalTxSize := 0
    nTransactionsUpdated := pool.nTransactionsUpdated + 1 }

/-- `CTxMemPool::PrioritiseTransaction` (`txmempool.cpp:675-684`). -/
def prioritiseTransaction (pool : CTxMemPool) (hash : UInt256) (dPriorityDelta : ℚ)
    (nFeeDelta : Int) : CTxMemPool :=
  let deltas := (pool.mapDeltas.lookup hash).getD (0, 0)
  { pool with
    mapDeltas := pool.mapDeltas.insert hash
      (Binary64.add deltas.1 dPriorityDelta, deltas.2 + nFeeDelta) }

/-- What `AcceptToMemoryPool` has checked when it calls `addUnchecked` (`main.cpp:1142-1187`): the
transaction is new, its inputs are distinct, and none of them is spent in the pool. -/
def Admits (pool : CTxMemPool) (tx : CTransaction) : Prop :=
  pool.contains tx.getHash = false ∧ tx.prevouts.Nodup ∧
    ∀ prevout ∈ tx.prevouts, pool.mapNextTx.lookup prevout = none

instance (pool : CTxMemPool) (tx : CTransaction) : Decidable (pool.Admits tx) :=
  inferInstanceAs (Decidable (pool.contains tx.getHash = false ∧ tx.prevouts.Nodup ∧
    ∀ prevout ∈ tx.prevouts, pool.mapNextTx.lookup prevout = none))

end CTxMemPool

/-- What can happen to the memory pool. -/
inductive MempoolAction where
  | addUnchecked (entry : CTxMemPoolEntry)
  | remove (origTx : CTransaction) (fRecursive : Bool)
  | removeForBlock (vtx : List CTransaction)
  | removeConflicts (tx : CTransaction)
  | removeCoinbaseSpends (env : CTxMemPool.MaturityEnv)
  | prioritiseTransaction (hash : UInt256) (dPriorityDelta : ℚ) (nFeeDelta : Int)
  | clear

/-- One step of the memory pool; a transaction is only added where the checks allow it. -/
def mempoolStep (pool : CTxMemPool) : MempoolAction → Option CTxMemPool
  | .addUnchecked entry =>
    if pool.Admits entry.tx then some (pool.addUnchecked entry.tx.getHash entry) else some pool
  | .remove origTx fRecursive => (pool.remove origTx [] fRecursive).map Prod.fst
  | .removeForBlock vtx => (pool.removeForBlock [] vtx).map Prod.fst
  | .removeConflicts tx => (pool.removeConflicts tx []).map Prod.fst
  | .removeCoinbaseSpends env => pool.removeCoinbaseSpends env
  | .prioritiseTransaction hash dPriorityDelta nFeeDelta =>
    some (pool.prioritiseTransaction hash dPriorityDelta nFeeDelta)
  | .clear => some pool.clear

end Esbcoin
