import Esbcoin.Lib.AssocMap
import Esbcoin.Primitives

/-!
# The block index

Rendering of `src/chain.h` and `src/chain.cpp`. A pointer to an entry is the hash the entry
is filed under in `mapBlockIndex`; following a pointer is a lookup. `CChain` holds pointers,
as in the source, so a change of an entry is seen through every chain that holds it.
-/

namespace Esbcoin

/-- The bits of `CBlockIndex::nStatus` (`chain.h:63-98`), with the validity level of
`BLOCK_VALID_MASK` as a number from 0 to 5. -/
structure BlockStatus where
  valid : Nat := 0
  haveData : Bool := false
  haveUndo : Bool := false
  failedValid : Bool := false
  failedChild : Bool := false
deriving DecidableEq, Repr

def BLOCK_VALID_TREE : Nat := 2

def BLOCK_VALID_TRANSACTIONS : Nat := 3

def BLOCK_VALID_SCRIPTS : Nat := 5

namespace BlockStatus

/-- `nStatus & BLOCK_FAILED_MASK`. -/
def failed (status : BlockStatus) : Bool := status.failedValid || status.failedChild

/-- `CBlockIndex::IsValid` (`chain.h:364-370`). -/
def isValid (status : BlockStatus) (nUpTo : Nat) : Bool :=
  !status.failed && decide (nUpTo ≤ status.valid)

/-- `CBlockIndex::RaiseValidity` (`chain.h:374-384`). -/
def raiseValidity (status : BlockStatus) (nUpTo : Nat) : BlockStatus :=
  if status.failed then status
  else if status.valid < nUpTo then { status with valid := nUpTo }
  else status

theorem raiseValidity_haveData (status : BlockStatus) (nUpTo : Nat) :
    (status.raiseValidity nUpTo).haveData = status.haveData := by
  unfold raiseValidity
  split
  · rfl
  · split <;> rfl

theorem raiseValidity_haveUndo (status : BlockStatus) (nUpTo : Nat) :
    (status.raiseValidity nUpTo).haveUndo = status.haveUndo := by
  unfold raiseValidity
  split
  · rfl
  · split <;> rfl

end BlockStatus

/-- `CDiskBlockPos` (`chain.h:20-61`). -/
structure CDiskBlockPos where
  nFile : Int
  nPos : Nat
deriving DecidableEq, Repr

/-- The bits of `CBlockIndex::nFlags` (`chain.h:151-156`). -/
structure BlockFlags where
  proofOfStake : Bool := false
  stakeEntropy : Bool := false
  stakeModifier : Bool := false
deriving DecidableEq, Repr

/-- `CBlockIndex` (`chain.h:105-397`). The fields `pnext`, `pskip` and `bnChainTrust` are
not read by what is modelled. -/
structure CBlockIndex where
  phashBlock : Option UInt256
  pprev : Option UInt256 := none
  nHeight : Int := 0
  nFile : Int := 0
  nDataPos : Nat := 0
  nUndoPos : Nat := 0
  nChainWork : Nat := 0
  nTx : Nat := 0
  nChainTx : Nat := 0
  nStatus : BlockStatus := {}
  nFlags : BlockFlags := {}
  nStakeModifier : UInt64 := 0
  nStakeModifierChecksum : UInt32 := 0
  prevoutStake : COutPoint := COutPoint.null
  nStakeTime : UInt32 := 0
  hashProofOfStake : UInt256 := 0
  nMint : Int := 0
  nMoneySupply : Int := 0
  nVersion : Int := 0
  hashMerkleRoot : UInt256 := 0
  nTime : UInt32 := 0
  nBits : UInt32 := 0
  nNonce : UInt32 := 0
  nSequenceId : Nat := 0
deriving DecidableEq, Repr

namespace CBlockIndex

/-- `CBlockIndex::GetBlockHash`. -/
def getBlockHash (pindex : CBlockIndex) : UInt256 := pindex.phashBlock.getD 0

/-- `CBlockIndex::GetBlockTime`. -/
def getBlockTime (pindex : CBlockIndex) : Int := pindex.nTime.toNat

/-- `CBlockIndex::GetUndoPos`; `none` is the null position. -/
def getUndoPos (pindex : CBlockIndex) : Option CDiskBlockPos :=
  if pindex.nStatus.haveUndo then some ⟨pindex.nFile, pindex.nUndoPos⟩ else none

/-- `CBlockIndex::GetBlockPos`; `none` is the null position. -/
def getBlockPos (pindex : CBlockIndex) : Option CDiskBlockPos :=
  if pindex.nStatus.haveData then some ⟨pindex.nFile, pindex.nDataPos⟩ else none

/-- `CBlockIndex::IsProofOfStake`. -/
def isProofOfStake (pindex : CBlockIndex) : Bool := pindex.nFlags.proofOfStake

/-- `CBlockIndex::GeneratedStakeModifier`. -/
def generatedStakeModifier (pindex : CBlockIndex) : Bool := pindex.nFlags.stakeModifier

end CBlockIndex

/-- `BlockMap` (`main.h:122`), the type of `mapBlockIndex`. -/
abbrev BlockMap := AssocMap UInt256 CBlockIndex

/-- Follow a pointer that may be null. -/
def BlockMap.deref (mapBlockIndex : BlockMap) (pindex : Option UInt256) : Option CBlockIndex :=
  pindex.bind (fun hash => mapBlockIndex.lookup hash)

/-- `CChain` (`chain.h:464-556`), its pointers by height. -/
structure CChain where
  vChain : List UInt256
deriving DecidableEq, Repr

namespace CChain

/-- `CChain::Height`: -1 for an empty chain. -/
def height (chain : CChain) : Int := (chain.vChain.length : Int) - 1

/-- `CChain::Tip`. -/
def tip (chain : CChain) : Option UInt256 := chain.vChain.getLast?

/-- `CChain::operator[]`. -/
def atHeight (chain : CChain) (nHeight : Int) : Option UInt256 :=
  if nHeight < 0 then none else chain.vChain[nHeight.toNat]?

/-- `CChain::Contains`, of the entry filed under `hash`. -/
def contains (chain : CChain) (hash : UInt256) (pindex : CBlockIndex) : Bool :=
  chain.atHeight pindex.nHeight == some hash

/-- `CChain::Next`, of the entry filed under `hash`. -/
def next (chain : CChain) (hash : UInt256) (pindex : CBlockIndex) : Option UInt256 :=
  if chain.contains hash pindex then chain.atHeight (pindex.nHeight + 1) else none

end CChain

end Esbcoin
