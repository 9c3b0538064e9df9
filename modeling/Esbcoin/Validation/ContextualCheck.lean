import Esbcoin.Script.Push
import Esbcoin.Validation.CheckBlock

/-!
# Checks of a block by its place in the chain

`IsFinalTx` and `ContextualCheckBlock` (`src/main.cpp:762-779, 3424-3452`): every transaction of
a block is final, and the script of its coinbase starts with the height.
-/

namespace Esbcoin

/-- `LOCKTIME_THRESHOLD` (`main.h:80`). -/
def LOCKTIME_THRESHOLD : Int := 500000000

/-- `CTxIn::IsFinal` (`primitives/transaction.h:91-94`). -/
def CTxIn.isFinal (txin : CTxIn) : Bool := txin.nSequence == 0xffffffff

/-- `IsFinalTx` (`main.cpp:762-779`). -/
def isFinalTx (getAdjustedTime : Int) (chainActive : CChain) (tx : CTransaction)
    (nBlockHeight nBlockTime : Int) : Bool :=
  let nLockTime : Int := tx.nLockTime.toNat
  let nBlockHeight := if nBlockHeight = 0 then chainActive.height else nBlockHeight
  let nBlockTime := if nBlockTime = 0 then getAdjustedTime else nBlockTime
  nLockTime == 0 ||
    decide (nLockTime < if nLockTime < LOCKTIME_THRESHOLD then nBlockHeight else nBlockTime) ||
    tx.vin.all CTxIn.isFinal

/-- The height behind a block of the index, 0 behind none (`main.cpp:3426`). -/
def heightBehind (pindexPrev : Option CBlockIndex) : Int :=
  match pindexPrev with
  | none => 0
  | some pindexPrev => pindexPrev.nHeight + 1

/-- The check that the script of the coinbase starts with the height (`main.cpp:3442-3449`). -/
def checkCoinBaseHeight (block : CBlock) (nHeight : Int) : Except Failure Unit := do
  let coinBase ← orCrash block.vtx.head?
  let txin ← orCrash coinBase.vin.head?
  rejectIf (!(CScript.pushInt64 nHeight).isPrefixOf txin.scriptSig) (dos 100 "bad-cb-height")

/-- `ContextualCheckBlock` (`main.cpp:3424-3452`). -/
def contextualCheckBlock (env : CheckEnv) (chainActive : CChain) (block : CBlock)
    (pindexPrev : Option CBlockIndex) : Except Failure Unit := do
  let nHeight := heightBehind pindexPrev
  rejectIf (!block.vtx.all fun tx =>
      isFinalTx env.getAdjustedTime chainActive tx nHeight block.getBlockTime)
    (dos 10 "bad-txns-nonfinal")
  if nHeight = 0 ∧ block.getHash = env.params.hashGenesisBlock then .ok ()
  else checkCoinBaseHeight block nHeight

theorem startsWith_of_contextualCheckBlock {env : CheckEnv} {chainActive : CChain}
    {block : CBlock} {pindexPrev : Option CBlockIndex}
    (notGenesis : block.getHash ≠ env.params.hashGenesisBlock)
    (h : contextualCheckBlock env chainActive block pindexPrev = .ok ()) :
    ∃ coinBase vtx txin vin rest, block.vtx = coinBase :: vtx ∧ coinBase.vin = txin :: vin ∧
      txin.scriptSig = CScript.pushInt64 (heightBehind pindexPrev) ++ rest := by
  simp only [contextualCheckBlock, bind_ok_unit] at h
  obtain ⟨-, h⟩ := h
  rw [if_neg fun both => notGenesis both.2] at h
  simp only [checkCoinBaseHeight, bind_ok, orCrash_eq_ok, rejectIf_eq_ok, Bool.not_eq_false',
    List.isPrefixOf_iff_prefix] at h
  obtain ⟨coinBase, first, txin, input, rest, script⟩ := h
  obtain ⟨vtx, hvtx⟩ := List.head?_eq_some_iff.mp first
  obtain ⟨vin, hvin⟩ := List.head?_eq_some_iff.mp input
  exact ⟨coinBase, vtx, txin, vin, rest, hvtx, hvin, script.symm⟩

end Esbcoin
