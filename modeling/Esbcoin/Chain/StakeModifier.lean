import Esbcoin.Chain.ActiveChain
import Esbcoin.Compact
import Esbcoin.Serialize

/-!
# Stake modifiers

`ComputeNextStakeModifier` (`src/kernel.cpp`) and `AddToBlockIndex` (`src/main.cpp`), which stores
the modifier and its checksum with a new block. `pnext`, `pskip`, `bnChainTrust`, `setStakeSeen`,
`pindexBestHeader` and the checkpoint of the checksum, which is only logged, are left out.

The first block above genesis gets `uint64_t("stakemodifier")`: the address at which the process
holds the literal. It is a field of the node here.
-/

namespace Esbcoin

open Bytes

/-- What the staking functions read besides the index. -/
structure StakeContext where
  hash : List UInt8 → UInt256
  modifierUpgradeBlock : Int

namespace BlockMap

/-- An entry and what `pprev` leads to, within as many steps as given. -/
def back (mapBlockIndex : BlockMap) : Nat → CBlockIndex → List CBlockIndex
  | 0, pindex => [pindex]
  | fuel + 1, pindex => pindex :: match mapBlockIndex.deref pindex.pprev with
    | none => []
    | some pprev => back mapBlockIndex fuel pprev

/-- The entries that a pointer reaches through `pprev`, itself first. -/
def chain (mapBlockIndex : BlockMap) (hash : UInt256) : List CBlockIndex :=
  match mapBlockIndex.lookup hash with
  | none => []
  | some pindex => mapBlockIndex.back pindex.nHeight.toNat pindex

end BlockMap

/-- `CBlockIndex::GetStakeEntropyBit` (`chain.h:318-325`). -/
def CBlockIndex.getStakeEntropyBit (pindex : CBlockIndex) : UInt64 :=
  getLow64 pindex.getBlockHash &&& 1

/-- `getIntervalVersion` (`kernel.cpp:26-32`); both constants are 60 (`kernel.h:12-13`). -/
def getIntervalVersion : Nat := 60

/-- `GetStakeModifierSelectionIntervalSection` (`kernel.cpp:59-64`). -/
def getStakeModifierSelectionIntervalSection (nSection : Nat) : Int :=
  ↑(60 * 63 / (63 + (63 - nSection) * 2))

/-- `GetStakeModifierSelectionInterval` (`kernel.cpp:67-74`). -/
def getStakeModifierSelectionInterval : Int :=
  ((List.range 64).map getStakeModifierSelectionIntervalSection).sum

/-- `GetLastStakeModifier` (`kernel.cpp:45-56`), of a pointer and what it reaches. -/
def getLastStakeModifier : List CBlockIndex → Option (UInt64 × Int)
  | [] => none
  | pindex :: pprev =>
    if pindex.generatedStakeModifier then some (pindex.nStakeModifier, pindex.getBlockTime)
    else getLastStakeModifier pprev

section Selection

variable (c : StakeContext) (mapBlockIndex : BlockMap)

/-- `hashSelection` of a candidate (`kernel.cpp:108-123`). -/
def hashSelection (fModifierV2 : Bool) (nStakeModifierPrev : UInt64) (pindex : CBlockIndex) :
    UInt256 :=
  let hashProof := if fModifierV2 then pindex.getBlockHash
    else if pindex.isProofOfStake then 0 else pindex.getBlockHash
  let hash := c.hash (littleEndian 32 hashProof.toNat ++ littleEndian 8 nStakeModifierPrev.toNat)
  if pindex.isProofOfStake then hash >>> 32 else hash

/-- The loop of `SelectBlockFromCandidates` (`kernel.cpp:91-132`). `fModifierV2` is `none` in the
first run; `best` is `hashBest` with `pindexSelected`. An error is the outer `none`. -/
def selectLoop (selected : List UInt256) (nSelectionIntervalStop : Int)
    (nStakeModifierPrev : UInt64) :
    Option Bool → Option (UInt256 × CBlockIndex) → List (Int × UInt256) →
      Option (Option (UInt256 × CBlockIndex))
  | _, best, [] => some best
  | fModifierV2, best, item :: items =>
    match mapBlockIndex.lookup item.2 with
    | none => none
    | some pindex =>
      if best.isSome && nSelectionIntervalStop < pindex.getBlockTime then some best
      else
        let v2 := fModifierV2.getD (c.modifierUpgradeBlock ≤ pindex.nHeight)
        if selected.contains pindex.getBlockHash then
          selectLoop selected nSelectionIntervalStop nStakeModifierPrev (some v2) best items
        else
          let hash := hashSelection c v2 nStakeModifierPrev pindex
          let better := match best with
            | none => true
            | some (hashBest, _) => hash < hashBest
          selectLoop selected nSelectionIntervalStop nStakeModifierPrev (some v2)
            (if better then some (hash, pindex) else best) items

/-- The order of the candidates: by time, then by hash. -/
def beforeCandidate (a b : Int × UInt256) : Bool := a.1 < b.1 || (a.1 == b.1 && a.2 ≤ b.2)

/-- The rounds of `ComputeNextStakeModifier` (`kernel.cpp:199-217`). -/
def modifierRounds (vSortedByTimestamp : List (Int × UInt256)) (nStakeModifier : UInt64) :
    List Nat → List UInt256 → Int → UInt64 → Option UInt64
  | [], _, _, nStakeModifierNew => some nStakeModifierNew
  | nRound :: rounds, selected, nSelectionIntervalStop, nStakeModifierNew =>
    let stop := nSelectionIntervalStop + getStakeModifierSelectionIntervalSection nRound
    match selectLoop c mapBlockIndex selected stop nStakeModifier none none vSortedByTimestamp with
    | some (some (_, pindex)) =>
      modifierRounds vSortedByTimestamp nStakeModifier rounds (pindex.getBlockHash :: selected)
        stop (nStakeModifierNew ||| pindex.getStakeEntropyBit <<< UInt64.ofNat nRound)
    | _ => none

/-- `ComputeNextStakeModifier` (`kernel.cpp:152-243`), where the literal stands at `literal`:
`nStakeModifier` and `fGeneratedStakeModifier` as they are set, also when it fails. -/
def computeNextStakeModifier (literal : UInt64) (pindexPrev : List CBlockIndex) : UInt64 × Bool :=
  match pindexPrev with
  | [] => (0, true)
  | prev :: _ =>
    if prev.nHeight = 0 then (literal, true)
    else match getLastStakeModifier pindexPrev with
      | none => (0, false)
      | some (nStakeModifier, nModifierTime) =>
        if prev.getBlockTime / getIntervalVersion ≤ nModifierTime / getIntervalVersion then
          (nStakeModifier, false)
        else
          let nSelectionIntervalStart :=
            prev.getBlockTime / getIntervalVersion * getIntervalVersion -
              getStakeModifierSelectionInterval
          let candidates := (pindexPrev.takeWhile fun pindex =>
            nSelectionIntervalStart ≤ pindex.getBlockTime).map fun pindex =>
              (pindex.getBlockTime, pindex.getBlockHash)
          let vSortedByTimestamp := candidates.reverse.mergeSort beforeCandidate
          match modifierRounds c mapBlockIndex vSortedByTimestamp nStakeModifier
              (List.range (min 64 vSortedByTimestamp.length)) [] nSelectionIntervalStart 0 with
          | none => (nStakeModifier, false)
          | some nStakeModifierNew => (nStakeModifierNew, true)

end Selection

/-! ## The index of a node -/

namespace CBlockIndex

/-- The constructor of an entry (`chain.h:215-242`), filed under the hash of the block. -/
def ofBlock (block : CBlock) : CBlockIndex where
  phashBlock := some block.getHash
  nVersion := block.nVersion
  hashMerkleRoot := block.hashMerkleRoot
  nTime := block.nTime
  nBits := block.nBits
  nNonce := block.nNonce
  nFlags := { proofOfStake := block.isProofOfStake }
  prevoutStake :=
    if block.isProofOfStake then
      ((block.vtx[1]?.bind fun tx => tx.vin.head?).map fun txin => txin.prevout).getD COutPoint.null
    else COutPoint.null
  nStakeTime := if block.isProofOfStake then block.nTime else 0

/-- `nFlags` as a number (`chain.h:151-156`). -/
def flagBits (flags : BlockFlags) : Nat :=
  (if flags.proofOfStake then 1 else 0) + (if flags.stakeEntropy then 2 else 0) +
    (if flags.stakeModifier then 4 else 0)

/-- `GetStakeModifierChecksum` (`kernel.cpp:430-441`). -/
def getStakeModifierChecksum (c : StakeContext) (pindex : CBlockIndex)
    (pprev : Option CBlockIndex) : UInt32 :=
  let ss := (pprev.elim [] fun pprev => littleEndian 4 pprev.nStakeModifierChecksum.toNat) ++
    littleEndian 4 (flagBits pindex.nFlags) ++ littleEndian 32 pindex.hashProofOfStake.toNat ++
    littleEndian 8 pindex.nStakeModifier.toNat
  (getLow64 (c.hash ss >>> 224)).toUInt32

end CBlockIndex

/-- What the modifiers depend on in a node: the index, `mapProofOfStake` (`main.cpp:58`) and the
address of the literal in the running process. -/
structure IndexNode where
  mapBlockIndex : BlockMap
  mapProofOfStake : AssocMap UInt256 UInt256
  literal : UInt64

namespace IndexNode

variable (c : StakeContext)

/-- The entry of a block above another (`main.cpp:2997-3031`), in an index that has it already. -/
def newEntry (node : IndexNode) (block : CBlock) (pprev : CBlockIndex) : CBlockIndex :=
  let pindexNew := { CBlockIndex.ofBlock block with
    pprev := some block.hashPrevBlock
    nHeight := pprev.nHeight + 1 }
  let mapBlockIndex := node.mapBlockIndex.insert block.getHash pindexNew
  let nStakeModifier := computeNextStakeModifier c mapBlockIndex node.literal
    (BlockMap.chain mapBlockIndex block.hashPrevBlock)
  let pindexNew := { pindexNew with
    nFlags :=
      { proofOfStake := block.isProofOfStake
        stakeEntropy := pindexNew.getStakeEntropyBit != 0
        stakeModifier := nStakeModifier.2 }
    hashProofOfStake :=
      if block.isProofOfStake then (node.mapProofOfStake.lookup block.getHash).getD 0 else 0
    nStakeModifier := nStakeModifier.1 }
  { pindexNew with
    nStakeModifierChecksum := pindexNew.getStakeModifierChecksum c (some pprev)
    nChainWork := pprev.nChainWork + getBlockProof block.nBits
    nStatus := pindexNew.nStatus.raiseValidity BLOCK_VALID_TREE }

/-- `AddToBlockIndex` (`main.cpp:2975-3042`). -/
def addToBlockIndex (node : IndexNode) (block : CBlock) : IndexNode :=
  match node.mapBlockIndex.lookup block.getHash with
  | some _ => node
  | none =>
    match node.mapBlockIndex.lookup block.hashPrevBlock with
    | some pprev =>
      { node with
        mapBlockIndex := node.mapBlockIndex.insert block.getHash (node.newEntry c block pprev)
        mapProofOfStake :=
          if block.isProofOfStake then node.mapProofOfStake.insertNew block.getHash 0
          else node.mapProofOfStake }
    | none =>
      let pindexNew := CBlockIndex.ofBlock block
      { node with
        mapBlockIndex := node.mapBlockIndex.insert block.getHash { pindexNew with
          nChainWork := getBlockProof block.nBits
          nStatus := pindexNew.nStatus.raiseValidity BLOCK_VALID_TREE } }

/-- What `LoadBlockIndexGuts` finds on disk (`chain.h:418-452`, `txdb.cpp:254-278`): the checksum
and the proof hash are not written. -/
def reload (pindex : CBlockIndex) : CBlockIndex :=
  { pindex with nStakeModifierChecksum := 0, hashProofOfStake := 0, nSequenceId := 0 }

end IndexNode

/-- What happens to the index of a node. -/
inductive IndexStep
  /-- `AcceptBlockHeader` (`main.cpp:3454-3512`) comes to its end. -/
  | add (block : CBlock)
  /-- `CheckWork` records a kernel hash (`main.cpp:3342-3343`). -/
  | prove (hash hashProofOfStake : UInt256)
  /-- The process ends, and another loads the index. -/
  | restart (literal : UInt64)

namespace IndexNode

variable (c : StakeContext)

/-- One step. A header is added only above one that is indexed (`main.cpp:3480-3483`). -/
def step (node : IndexNode) : IndexStep → IndexNode
  | .add block =>
    if node.mapBlockIndex.contains block.hashPrevBlock then node.addToBlockIndex c block else node
  | .prove hash hashProofOfStake =>
    { node with mapProofOfStake := node.mapProofOfStake.insertNew hash hashProofOfStake }
  | .restart literal =>
    { mapBlockIndex := node.mapBlockIndex.mapValues reload, mapProofOfStake := ∅, literal }

end IndexNode

/-- The life of a node: the address in its first process, and what happens to its index. -/
structure IndexRun where
  literal : UInt64
  steps : List IndexStep

namespace IndexRun

variable (c : StakeContext) (genesis : CBlock)

/-- `InitBlockIndex` (`main.cpp:4139-4150`). -/
def start (run : IndexRun) : IndexNode :=
  IndexNode.addToBlockIndex c ⟨∅, ∅, run.literal⟩ genesis

/-- The node in the end. -/
def node (run : IndexRun) : IndexNode := run.steps.foldl (IndexNode.step c) (run.start c genesis)

end IndexRun

end Esbcoin
