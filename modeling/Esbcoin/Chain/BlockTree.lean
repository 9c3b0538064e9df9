import Mathlib.Data.Finset.Basic
import Esbcoin.Chain.DiskBlockIndex
import Esbcoin.Chain.ModifierRuns

/-!
# The block tree of a node

The block index with what hangs on it (`src/main.cpp:110-150`): blocks whose parent's transactions
are missing, the candidates for the tip, and the moves that change them. Of the chain only the tip
is kept, of a pointer the address that orders it. The checks in front of a move are its premises,
as far as they are on the tree; `setStakeSeen`, `pindexBestHeader`, `pindexBestInvalid` and the sets
of dirty entries are left out.
-/

namespace Esbcoin

/-- The hash of a header, which is never the null hash. -/
structure BlockHasher where
  hash : CBlockHeader → UInt256
  nonzero : ∀ header, hash header ≠ 0

/-- `CBlockIndex::GetBlockTrust` (`chain.cpp:100-116`); `uint256(1) << 256` is 0. -/
def CBlockIndex.getBlockTrust (pindex : CBlockIndex) : UInt256 :=
  let bnTarget := setCompact pindex.nBits
  if bnTarget = 0 then 0
  else if pindex.isProofOfStake then 0
  else
    let bnPoWTrust := (BitVec.allOnes 256 >>> 20) / (bnTarget + 1)
    if bnPoWTrust > 1 then bnPoWTrust else 1

/-- `CBlockIndexWorkComparator` (`main.cpp:110-129`), for entries at these addresses. -/
def CBlockIndex.worse (pa pb : CBlockIndex) (addressA addressB : Nat) : Bool :=
  if pa.nChainWork > pb.nChainWork then false
  else if pa.nChainWork < pb.nChainWork then true
  else if pa.nSequenceId < pb.nSequenceId then false
  else if pa.nSequenceId > pb.nSequenceId then true
  else if addressA < addressB then false
  else decide (addressA > addressB)

/-- The block index and what hangs on it. -/
structure BlockTree extends IndexNode where
  /-- `CBlockIndex::bnChainTrust` of the entry filed under a hash, 0 where nothing is. -/
  bnChainTrust : AssocMap UInt256 UInt256
  /-- The pairs of `mapBlocksUnlinked`, in the order they came in. -/
  mapBlocksUnlinked : List (UInt256 × UInt256)
  setBlockIndexCandidates : Finset UInt256
  /-- `chainActive.Tip()`. -/
  tip : Option UInt256
  nBlockSequenceId : Nat
  /-- Where the process holds an entry. -/
  address : UInt256 → Nat

namespace BlockTree

/-- The comparison of two entries of the tree. -/
def worse (tree : BlockTree) (a b : UInt256) : Bool :=
  match tree.mapBlockIndex.lookup a, tree.mapBlockIndex.lookup b with
  | some pa, some pb => pa.worse pb (tree.address a) (tree.address b)
  | _, _ => false

/-- The entry is worse than the tip, if there is one. -/
def worseThanTip (tree : BlockTree) (hash : UInt256) : Bool :=
  match tree.tip with
  | none => false
  | some tip => tree.worse hash tip

variable (c : StakeContext)

/-- `AddToBlockIndex` (`main.cpp:2975-3043`) with the chain trust. -/
def addToBlockIndex (tree : BlockTree) (block : CBlock) : BlockTree :=
  { tree with
    toIndexNode := tree.toIndexNode.addToBlockIndex c block
    bnChainTrust :=
      match tree.mapBlockIndex.lookup block.getHash,
        tree.mapBlockIndex.lookup block.hashPrevBlock with
      | none, some _ => tree.bnChainTrust.insert block.getHash
          ((tree.bnChainTrust.lookup block.hashPrevBlock).getD 0 +
            (CBlockIndex.ofBlock block).getBlockTrust)
      | _, _ => tree.bnChainTrust }

/-- A block of the queue of `ReceivedBlockTransactions` (`main.cpp:3067-3074`). -/
def link (tree : BlockTree) (hash : UInt256) (pindex : CBlockIndex) : BlockTree :=
  let nChainTx := ((tree.mapBlockIndex.deref pindex.pprev).map CBlockIndex.nChainTx).getD 0 +
    pindex.nTx
  let tree := { tree with
    mapBlockIndex := tree.mapBlockIndex.insert hash
      { pindex with nChainTx, nSequenceId := tree.nBlockSequenceId }
    nBlockSequenceId := tree.nBlockSequenceId + 1 }
  if tree.tip.isNone || !tree.worseThanTip hash then
    { tree with setBlockIndexCandidates := insert hash tree.setBlockIndexCandidates }
  else tree

/-- The queue of `ReceivedBlockTransactions` (`main.cpp:3064-3082`): the blocks that waited for one
of it come behind it. -/
def linkQueue : Nat → BlockTree → List UInt256 → BlockTree
  | _, tree, [] => tree
  | 0, tree, _ => tree
  | fuel + 1, tree, hash :: queue =>
    match tree.mapBlockIndex.lookup hash with
    | none => tree
    | some pindex =>
      let tree := tree.link hash pindex
      linkQueue fuel
        { tree with
          mapBlocksUnlinked := tree.mapBlocksUnlinked.filter fun pair => pair.1 ≠ hash }
        (queue ++ (tree.mapBlocksUnlinked.filter fun pair => pair.1 = hash).map Prod.snd)

/-- The entry of a block whose transactions have come (`main.cpp:3047-3055`). -/
def receivedEntry (block : CBlock) (pos : CDiskBlockPos) (pindexNew : CBlockIndex) : CBlockIndex :=
  { pindexNew with
    nFlags := { pindexNew.nFlags with
      proofOfStake := pindexNew.nFlags.proofOfStake || block.isProofOfStake }
    nTx := block.vtx.length
    nChainTx := 0
    nFile := pos.nFile
    nDataPos := pos.nPos
    nUndoPos := 0
    nStatus := BlockStatus.raiseValidity { pindexNew.nStatus with haveData := true }
      BLOCK_VALID_TRANSACTIONS }

/-- `ReceivedBlockTransactions` (`main.cpp:3045-3091`) of the block with this entry. -/
def receivedBlockTransactions (tree : BlockTree) (block : CBlock) (pos : CDiskBlockPos)
    (pindexNew : CBlockIndex) : BlockTree :=
  let hash := block.getHash
  let pindexNew := receivedEntry block pos pindexNew
  let tree := { tree with mapBlockIndex := tree.mapBlockIndex.insert hash pindexNew }
  match pindexNew.pprev, tree.mapBlockIndex.deref pindexNew.pprev with
  | some hashPrev, some pprev =>
    if pprev.nChainTx ≠ 0 then linkQueue (tree.mapBlocksUnlinked.length + 1) tree [hash]
    else if pprev.nStatus.isValid BLOCK_VALID_TREE then
      { tree with mapBlocksUnlinked := tree.mapBlocksUnlinked ++ [(hashPrev, hash)] }
    else tree
  | _, _ => linkQueue (tree.mapBlocksUnlinked.length + 1) tree [hash]

/-- `PruneBlockIndexCandidates` (`main.cpp:2763-2773`). -/
def pruneBlockIndexCandidates (tree : BlockTree) : BlockTree :=
  { tree with setBlockIndexCandidates :=
      tree.setBlockIndexCandidates.filter fun hash => !tree.worseThanTip hash }

/-- `InitBlockIndex` (`main.cpp:4150-4154`) of a process that holds its entries at `address`. -/
def init (genesis : CBlock) (pos : CDiskBlockPos) (literal : UInt64) (address : UInt256 → Nat) :
    BlockTree :=
  let empty : BlockTree := ⟨⟨∅, ∅, literal⟩, ∅, [], ∅, none, 1, address⟩
  let tree := empty.addToBlockIndex c genesis
  match tree.mapBlockIndex.lookup genesis.getHash with
  | none => tree
  | some pindex => tree.receivedBlockTransactions genesis pos pindex

end BlockTree

/-- What is written to an entry of the index once its block is there. -/
inductive EntryWrite where
  /-- `ConnectBlock` (`main.cpp:2293-2294`). -/
  | supply (nMoneySupply nMint : Int)
  /-- `ConnectBlock` (`main.cpp:2334-2335`). -/
  | undo (nPos : Nat)
  /-- `ConnectBlock` (`main.cpp:2338`). -/
  | scripts
  /-- `InvalidBlockFound`, `InvalidateBlock`, `AcceptBlock` (`main.cpp:1911, 2911, 3557`). -/
  | failedValid
  /-- `FindMostWorkChain`, `InvalidateBlock` (`main.cpp:2741, 2917`). -/
  | failedChild
  /-- `ReconsiderBlock` (`main.cpp:2951, 2967`). -/
  | reconsider

namespace EntryWrite

/-- What a write changes in an entry. -/
def apply (pindex : CBlockIndex) : EntryWrite → CBlockIndex
  | .supply nMoneySupply nMint => { pindex with nMoneySupply, nMint }
  | .undo nPos => { pindex with
      nUndoPos := nPos, nStatus := { pindex.nStatus with haveUndo := true } }
  | .scripts => { pindex with nStatus := pindex.nStatus.raiseValidity BLOCK_VALID_SCRIPTS }
  | .failedValid => { pindex with nStatus := { pindex.nStatus with failedValid := true } }
  | .failedChild => { pindex with nStatus := { pindex.nStatus with failedChild := true } }
  | .reconsider => { pindex with
      nStatus := { pindex.nStatus with failedValid := false, failedChild := false } }

/-- What is written is in the range of its type; a block that is connected is there. -/
def Allowed (pindex : CBlockIndex) : EntryWrite → Prop
  | .supply nMoneySupply nMint => InTwosComplement 8 nMoneySupply ∧ InTwosComplement 8 nMint
  | .undo _ | .scripts => pindex.nStatus.haveData = true
  | _ => True

end EntryWrite

/-- The moves of a process on its tree. -/
inductive TreeMove (c : StakeContext) (hasher : BlockHasher) : BlockTree → BlockTree → Prop where
  /-- `AcceptBlockHeader` (`main.cpp:3478-3506`): the parent is known. -/
  | add {tree : BlockTree} {block : CBlock} (hashed : block.getHash = hasher.hash block.toCBlockHeader)
      (version : InTwosComplement 4 block.nVersion)
      (parent : tree.mapBlockIndex.contains block.hashPrevBlock = true) :
      TreeMove c hasher tree (tree.addToBlockIndex c block)
  /-- `CheckWork` (`main.cpp:3342-3343`). -/
  | prove {tree : BlockTree} (hash hashProofOfStake : UInt256) :
      TreeMove c hasher tree
        { tree with mapProofOfStake := tree.mapProofOfStake.insertNew hash hashProofOfStake }
  /-- `AcceptBlock` (`main.cpp:3516-3577`): neither the block nor its parent is known to be
  invalid, and the block has come for the first time. -/
  | receive {tree : BlockTree} {block : CBlock} {pos : CDiskBlockPos} {pindexNew : CBlockIndex}
      (found : tree.mapBlockIndex.lookup block.getHash = some pindexNew)
      (first : pindexNew.nStatus.haveData = false) (allowed : pindexNew.nStatus.failed = false)
      (parentAllowed : ∀ pprev, tree.mapBlockIndex.deref pindexNew.pprev = some pprev →
        pprev.nStatus.failed = false)
      (some : block.vtx ≠ []) (file : 0 ≤ pos.nFile) :
      TreeMove c hasher tree (tree.receivedBlockTransactions block pos pindexNew)
  | write {tree : BlockTree} {hash : UInt256} {pindex : CBlockIndex}
      (found : tree.mapBlockIndex.lookup hash = some pindex) (write : EntryWrite)
      (allowed : write.Allowed pindex) :
      TreeMove c hasher tree
        { tree with mapBlockIndex := tree.mapBlockIndex.insert hash (write.apply pindex) }
  /-- `UpdateTip` (`main.cpp:2456-2458`). -/
  | setTip {tree : BlockTree} {tip : Option UInt256}
      (found : ∀ hash ∈ tip, tree.mapBlockIndex.contains hash = true) :
      TreeMove c hasher tree { tree with tip }
  /-- `InvalidBlockFound`, `FindMostWorkChain`, `InvalidateBlock` (`main.cpp:1913, 2748-2751,
  2913-2919`). -/
  | eraseCandidate {tree : BlockTree} (hash : UInt256) :
      TreeMove c hasher tree
        { tree with setBlockIndexCandidates := tree.setBlockIndexCandidates.erase hash }
  /-- `InvalidateBlock`, `ReconsiderBlock` (`main.cpp:2931-2932, 2953-2954`). -/
  | insertCandidate {tree : BlockTree} {hash : UInt256} {pindex : CBlockIndex}
      (found : tree.mapBlockIndex.lookup hash = some pindex)
      (valid : pindex.nStatus.isValid BLOCK_VALID_TRANSACTIONS = true)
      (linked : pindex.nChainTx ≠ 0) :
      TreeMove c hasher tree
        { tree with setBlockIndexCandidates := insert hash tree.setBlockIndexCandidates }
  | prune {tree : BlockTree} : TreeMove c hasher tree tree.pruneBlockIndexCandidates

end Esbcoin
