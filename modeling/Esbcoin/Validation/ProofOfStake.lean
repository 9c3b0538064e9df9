import Esbcoin.Chain.StakeModifier
import Esbcoin.Validation.GetTransaction

/-!
# Checking a proof of stake

`CheckProofOfStake` (`src/kernel.cpp:375-420`) with the kernel hash and the stake modifier it uses.
The hash function, the script interpreter and the block files are parameters.
-/

namespace Esbcoin

/-- `CONSENSUS_FORK_PROTO_TIME` (`version.h:26`). -/
def CONSENSUS_FORK_PROTO_TIME : UInt32 := 1554746400

/-- `StakeInputMin` (`chainparams.cpp:182`, `:258`). -/
def stakeInputMin (params : CChainParams) : Int :=
  match params.networkID with
  | .main | .unittest => 10 * COIN
  | .testnet | .regtest => 1 * COIN

/-- What a proof of stake is checked against. -/
structure StakeEnv where
  params : CChainParams
  mapBlockIndex : BlockMap
  chainActive : CChain
  source : TxSource
  /-- `ReadBlockFromDisk` at a position. -/
  readBlockAt : CDiskBlockPos → Option CBlock
  /-- `VerifyScript` of an input against a script, under flags. -/
  verifyScript : CScript → CTransaction → Nat → UInt32 → Bool
  /-- `Hash`. -/
  hash : List UInt8 → UInt256

/-! ## The stake modifier -/

/-- `nStakeModifierSelectionInterval` of a kernel at `nTime` (`kernel.cpp:255-257`). -/
def selectionInterval (chainHeight : Int) (nTime : UInt32) : Int :=
  if activeProtocol chainHeight ≥ CONSENSUS_FORK_PROTO ∧ nTime ≥ CONSENSUS_FORK_PROTO_TIME then
    (nStakeMinAge * 3 / 4).toNat
  else getStakeModifierSelectionInterval

/-- The loop of `GetKernelStakeModifier` (`kernel.cpp:262-275`) up to a time, along the entries
above `pindex`: the entry whose modifier is used. -/
def laterBySelection (mapBlockIndex : BlockMap) (deadline nStakeModifierTime : Int)
    (pindex : CBlockIndex) : List UInt256 → Option CBlockIndex
  | [] => if nStakeModifierTime < deadline then none else some pindex
  | hashNext :: above =>
    if nStakeModifierTime < deadline then
      (mapBlockIndex.lookup hashNext).bind fun pindexNext =>
        laterBySelection mapBlockIndex deadline
          (if pindexNext.generatedStakeModifier then pindexNext.getBlockTime
            else nStakeModifierTime) pindexNext above
    else some pindex

/-- `GetKernelStakeModifier` (`kernel.cpp:247-277`): every block of the active chain stands at its
height, so the search passes the active chain above the height of the block it starts from. -/
def getKernelStakeModifier (mapBlockIndex : BlockMap) (chainActive : CChain)
    (hashBlockFrom : UInt256) (nTime : UInt32) : Option UInt64 :=
  (mapBlockIndex.lookup hashBlockFrom).bind fun pindexFrom =>
    (laterBySelection mapBlockIndex
      (pindexFrom.getBlockTime + selectionInterval chainActive.height nTime)
      pindexFrom.getBlockTime pindexFrom
      (chainActive.vChain.drop (pindexFrom.nHeight + 1).toNat)).map CBlockIndex.nStakeModifier

/-! ## The kernel -/

/-- A number as bytes, lowest first. -/
def littleEndian (width n : Nat) : List UInt8 :=
  (List.range width).map fun i => UInt8.ofNat (n / 256 ^ i)

/-- `stakeHash` (`kernel.cpp:279-285`) of a stream that holds the stake modifier. -/
def stakeHash (hash : List UInt8 → UInt256) (nTimeTx : UInt32) (nStakeModifier : UInt64)
    (prevoutIndex : UInt32) (prevoutHash : UInt256) (nTimeBlockFrom : UInt32) : UInt256 :=
  hash (littleEndian 8 nStakeModifier.toNat ++ littleEndian 4 nTimeBlockFrom.toNat ++
    littleEndian 4 prevoutIndex.toNat ++ littleEndian 32 prevoutHash.toNat ++
    littleEndian 4 nTimeTx.toNat)

/-- `stakeTargetHit` (`kernel.cpp:288-295`). -/
def stakeTargetHit (hashProofOfStake : UInt256) (nValueIn : Int) (bnTargetPerCoinDay : UInt256) :
    Bool :=
  let bnCoinDayWeight : UInt256 := BitVec.ofNat 256 ((nValueIn % 2 ^ 64).toNat / 100)
  hashProofOfStake < bnCoinDayWeight * bnTargetPerCoinDay

/-- `CheckStakeKernelHash` (`kernel.cpp:298-327`) with `fCheck`: the hash, if it meets the
target. -/
def checkStakeKernelHash (env : StakeEnv) (nBits : UInt32) (blockFrom : CBlock) (nValueIn : Int)
    (prevout : COutPoint) (nTimeTx : UInt32) : Option UInt256 :=
  let nTimeBlockFrom := blockFrom.nTime
  if nTimeTx < nTimeBlockFrom then none
  -- the sum wraps at 32 bits
  else if nTimeBlockFrom + nStakeMinAge > nTimeTx then none
  else
    (getKernelStakeModifier env.mapBlockIndex env.chainActive blockFrom.getHash nTimeTx).bind
      fun nStakeModifier =>
        let hashProofOfStake := stakeHash env.hash nTimeTx nStakeModifier prevout.n prevout.hash
          nTimeBlockFrom
        if stakeTargetHit hashProofOfStake nValueIn (setCompact nBits) then some hashProofOfStake
        else none

/-- The block that was not checked in time (`kernel.cpp:412-413`). -/
def skippedTime : UInt32 := 1554746413

/-- `CheckProofOfStake` behind the script (`kernel.cpp:394-419`), for a kernel of `nValueIn` in the
block `hashBlock`: the hash, which is null for the block that is skipped. -/
def checkKernel (env : StakeEnv) (block : CBlock) (prevout : COutPoint) (nValueIn : Int)
    (hashBlock : UInt256) : Except Failure UInt256 :=
  match env.mapBlockIndex.lookup hashBlock with
  | none => .error (.error "CheckProofOfStake() : read block failed")
  | some pindex =>
    match pindex.getBlockPos.bind env.readBlockAt with
    | none => .error (.error "CheckProofOfStake(): INFO: failed to find block")
    | some blockprev =>
      if activeProtocol env.chainActive.height ≥ CONSENSUS_FORK_PROTO ∧
          block.nTime ≥ CONSENSUS_FORK_PROTO_TIME ∧ nValueIn < stakeInputMin env.params then
        .error (.error "CheckProofOfStake(): stake input below minimal value")
      else if block.nTime = skippedTime then .ok 0
      else
        match checkStakeKernelHash env block.nBits blockprev nValueIn prevout block.nTime with
        | none => .error (.error "CheckProofOfStake() : INFO: check kernel failed on coinstake")
        | some hashProofOfStake => .ok hashProofOfStake

/-- `CheckProofOfStake` (`kernel.cpp:375-420`). The second transaction and the output that is staked
are read without a look at how many there are. -/
def checkProofOfStake (env : StakeEnv) (block : CBlock) : Except Failure UInt256 := do
  let tx ← orCrash block.vtx[1]?
  rejectIf (!tx.isCoinStake) (.error "CheckProofOfStake() : called on non-coinstake")
  let txin ← orCrash tx.vin[0]?
  match getTransaction env.source env.chainActive txin.prevout.hash true with
  | none => .error (.error "CheckProofOfStake() : INFO: read txPrev failed")
  | some (txPrev, hashBlock) => do
    let out ← orCrash txPrev.vout[txin.prevout.n.toNat]?
    rejectIf (!env.verifyScript out.scriptPubKey tx 0 STANDARD_SCRIPT_VERIFY_FLAGS)
      (.error "CheckProofOfStake() : VerifySignature failed on coinstake")
    checkKernel env block txin.prevout out.nValue hashBlock

end Esbcoin
