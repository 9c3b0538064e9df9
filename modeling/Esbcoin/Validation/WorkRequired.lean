import Esbcoin.Validation.ProofOfStake

/-!
# The target of the next block

`GetNextWorkRequired` (`src/pow.cpp:21-128`). The block it starts from is given with what `pprev`
leads to; `ActiveProtocol` reads the height of the active chain.
-/

namespace Esbcoin

/-- `StartWork` (`chainparams.cpp:107, 216, 290`). -/
def startWork (params : CChainParams) : UInt256 :=
  match params.networkID with
  | .main | .unittest => BitVec.allOnes 256 >>> 24
  | .testnet => params.proofOfWorkLimit
  | .regtest => BitVec.allOnes 256 >>> 20

/-- `PoSTargetSpacing` (`chainparams.cpp:116`). -/
def poSTargetSpacing : Int := 60

/-- `TargetSpacingSlowLaunch` (`chainparams.cpp:115`). -/
def targetSpacingSlowLaunch : Int := 2 * 60

/-- `operator*=` with a 64-bit number, which is cut to the 32 bits of its overload
(`uint256.h:186`). -/
def mulBy (v : UInt256) (n : Int) : UInt256 := v * BitVec.ofNat 256 (n % 2 ^ 32).toNat

/-- `operator/=` with a 64-bit number, which becomes a `uint256`. -/
def divBy (v : UInt256) (n : Int) : UInt256 := v / BitVec.ofNat 256 (n % 2 ^ 64).toNat

/-- `nTargetSpacing` of a proof of stake above a block of this time (`pow.cpp:44-54`). -/
def stakeSpacing (activeHeight nBlockTime : Int) : Int :=
  if activeProtocol activeHeight ≥ CONSENSUS_FORK_PROTO ∧
      nBlockTime ≥ CONSENSUS_FORK_PROTO_TIME.toNat then
    if nBlockTime ≥ CONSENSUS_FORK_PROTO_TIME.toNat + 6 * 7 * 24 * 60 * 60 then 120
    else
      let nTimeTarget := (nBlockTime - CONSENSUS_FORK_PROTO_TIME.toNat) / (7 * 24 * 60 * 60) + 1
      poSTargetSpacing + nTimeTarget * 10
  else poSTargetSpacing

/-- `bnTargetLimit` (`pow.cpp:39`). -/
def stakeTargetLimit : UInt256 := BitVec.allOnes 256 >>> 24

/-- The target of a proof of stake (`pow.cpp:38-82`) above a block and its parent. -/
def stakeTarget (params : CChainParams) (activeHeight : Int) (pindexLast : CBlockIndex)
    (pprev : Option CBlockIndex) : UInt256 :=
  let nTargetSpacing := stakeSpacing activeHeight pindexLast.getBlockTime
  let nTargetTimespan := nTargetSpacing * 40
  let nActualSpacing := (pprev.map fun pprev =>
    pindexLast.getBlockTime - pprev.getBlockTime).getD 0
  let nActualSpacing := if nActualSpacing < 0 then 1 else nActualSpacing
  let bnNew :=
    if pindexLast.nHeight ≥ params.lastPOWBlock ∧ pindexLast.nHeight ≤ params.lastPOWBlock + 2 then
      BitVec.allOnes 256 >>> 4
    else setCompact pindexLast.nBits
  let nInterval := nTargetTimespan / nTargetSpacing
  let bnNew := mulBy bnNew ((nInterval - 1) * nTargetSpacing + nActualSpacing + nActualSpacing)
  let bnNew := divBy bnNew ((nInterval + 1) * nTargetSpacing)
  if bnNew = 0 ∨ stakeTargetLimit < bnNew then stakeTargetLimit else bnNew

/-- What the loop over the last 24 blocks carries (`pow.cpp:84-113`). -/
structure DarkGravity where
  nActualTimespan : Int := 0
  lastBlockTime : Int := 0
  countBlocks : Nat := 0
  pastDifficultyAverage : UInt256 := 0

/-- A turn of the loop (`pow.cpp:88-106`). -/
def DarkGravity.turn (s : DarkGravity) (blockReading : CBlockIndex) : DarkGravity where
  nActualTimespan :=
    if s.lastBlockTime > 0 then s.nActualTimespan + (s.lastBlockTime - blockReading.getBlockTime)
    else s.nActualTimespan
  lastBlockTime := blockReading.getBlockTime
  countBlocks := s.countBlocks + 1
  pastDifficultyAverage :=
    if s.countBlocks = 0 then setCompact blockReading.nBits
    else divBy (mulBy s.pastDifficultyAverage (s.countBlocks + 1) + setCompact blockReading.nBits)
      (s.countBlocks + 2)

/-- The loop (`pow.cpp:84-113`), which does not read a block at height 0. -/
def DarkGravity.loop : DarkGravity → List CBlockIndex → DarkGravity
  | s, [] => s
  | s, blockReading :: pprev =>
    if blockReading.nHeight > 0 ∧ s.countBlocks < 24 then
      DarkGravity.loop (s.turn blockReading) pprev
    else s

/-- `GetNextWorkRequired` (`pow.cpp:21-128`). -/
def getNextWorkRequired (params : CChainParams) (activeHeight : Int) :
    List CBlockIndex → UInt32
  | [] => getCompact (startWork params) false
  | pindexLast :: pprev =>
    if pindexLast.nHeight = 0 ∨ pindexLast.nHeight < 24 then getCompact (startWork params) false
    else if pindexLast.nHeight ≥ params.lastPOWBlock then
      getCompact (stakeTarget params activeHeight pindexLast pprev.head?) false
    else
      let s := DarkGravity.loop {} (pindexLast :: pprev)
      let nTargetTimespan := s.countBlocks *
        (if pindexLast.nHeight > 100 then params.targetSpacing else targetSpacingSlowLaunch)
      let nActualTimespan := max s.nActualTimespan (nTargetTimespan / 3)
      let nActualTimespan := min nActualTimespan (nTargetTimespan * 3)
      let bnNew := divBy (mulBy s.pastDifficultyAverage nActualTimespan) nTargetTimespan
      getCompact (if params.proofOfWorkLimit < bnNew then params.proofOfWorkLimit else bnNew) false

end Esbcoin
