import Mathlib.Data.List.Sort
import Esbcoin.Chain.Params
import Esbcoin.Chain.TreeMoves

/-!
# The block tree after a start

A start builds the tree from the entries on disk: `LoadBlockIndexGuts` (`src/txdb.cpp:237-297`) reads
them in the order of the database, `LoadBlockIndexDB` (`src/main.cpp:3864-4010`) goes through them by
height. The block files are taken to be there, and what is read besides the entries and the best
block of the coins is left out.
-/

namespace Esbcoin

/-- `CheckProofOfWork` (`pow.cpp:130-146`). -/
def checkProofOfWork (params : CChainParams) (_hash : UInt256) (nBits : UInt32) : Bool :=
  params.skipProofOfWorkCheck ||
    !(compactNegative nBits || setCompact nBits == 0 || compactOverflow nBits ||
      decide (setCompact nBits > params.proofOfWorkLimit))

/-- `InsertBlockIndex` (`main.cpp:3838-3862`): the index, and the pointer. -/
def insertBlockIndex (mapBlockIndex : BlockMap) (hash : UInt256) : BlockMap × Option UInt256 :=
  if hash = 0 then (mapBlockIndex, none)
  else (mapBlockIndex.insertNew hash { phashBlock := some hash }, some hash)

/-- The fields that `LoadBlockIndexGuts` copies (`txdb.cpp:257-277`). -/
def CDiskBlockIndex.copy (diskindex : CDiskBlockIndex) (pprev : Option UInt256)
    (pindexNew : CBlockIndex) : CBlockIndex :=
  { pindexNew with
    pprev
    nHeight := diskindex.nHeight
    nFile := diskindex.nFile
    nDataPos := diskindex.nDataPos
    nUndoPos := diskindex.nUndoPos
    nVersion := diskindex.nVersion
    hashMerkleRoot := diskindex.hashMerkleRoot
    nTime := diskindex.nTime
    nBits := diskindex.nBits
    nNonce := diskindex.nNonce
    nStatus := diskindex.nStatus
    nTx := diskindex.nTx
    nMint := diskindex.nMint
    nMoneySupply := diskindex.nMoneySupply
    nFlags := diskindex.nFlags
    nStakeModifier := diskindex.nStakeModifier
    prevoutStake := diskindex.prevoutStake
    nStakeTime := diskindex.nStakeTime
    hashProofOfStake := diskindex.hashProofOfStake }

namespace BlockTree

/-- The value that is written for every entry (`txdb.cpp:82-85`, `main.cpp:2419-2424`). -/
def save (tree : BlockTree) : List (List UInt8) :=
  tree.mapBlockIndex.entries.map fun entry => (CDiskBlockIndex.ofIndex entry.2).serialize

variable (hasher : BlockHasher) (params : CChainParams)

/-- A turn of the loop of `LoadBlockIndexGuts` (`txdb.cpp:248-282`). -/
def loadEntry (mapBlockIndex : BlockMap) (value : List UInt8) : Option BlockMap :=
  match CDiskBlockIndex.unserialize value with
  | none => none
  | some (diskindex, _) =>
    let hash := hasher.hash diskindex.header
    let (mapBlockIndex, _) := insertBlockIndex mapBlockIndex hash
    let (mapBlockIndex, pprev) := insertBlockIndex mapBlockIndex diskindex.hashPrev
    let (mapBlockIndex, _) := insertBlockIndex mapBlockIndex diskindex.hashNext
    match mapBlockIndex.lookup hash with
    | none => none
    | some pindexNew =>
      let pindexNew := diskindex.copy pprev pindexNew
      if pindexNew.nHeight ≤ params.lastPOWBlock &&
          !checkProofOfWork params pindexNew.getBlockHash pindexNew.nBits then none
      else some (mapBlockIndex.insert hash pindexNew)

/-- `CBlockTreeDB::LoadBlockIndexGuts` over the values in their order. -/
def loadBlockIndexGuts (values : List (List UInt8)) : Option BlockMap :=
  values.foldlM (loadEntry hasher params) ∅

/-- The order of `vSortedByHeight`: `pair<int, CBlockIndex*>`. -/
def beforeByHeight (mapBlockIndex : BlockMap) (address : UInt256 → Nat) (a b : UInt256) : Bool :=
  let height hash := ((mapBlockIndex.lookup hash).map CBlockIndex.nHeight).getD 0
  height a < height b || (height a == height b && address a ≤ address b)

/-- `vSortedByHeight` (`main.cpp:3871-3877`). -/
def sortedByHeight (mapBlockIndex : BlockMap) (address : UInt256 → Nat) : List UInt256 :=
  mapBlockIndex.keys.insertionSort fun a b => beforeByHeight mapBlockIndex address a b

/-- The count of an entry, and the block that waits if its parent has none
(`main.cpp:3881-3890`). -/
def countEntry (tree : BlockTree) (hash : UInt256) (pindex : CBlockIndex) :
    CBlockIndex × List (UInt256 × UInt256) :=
  if pindex.nStatus.haveData then
    match pindex.pprev, tree.mapBlockIndex.deref pindex.pprev with
    | some hashPrev, some pprev =>
      if pprev.nChainTx ≠ 0 then
        ({ pindex with nChainTx := pprev.nChainTx + pindex.nTx }, tree.mapBlocksUnlinked)
      else ({ pindex with nChainTx := 0 }, tree.mapBlocksUnlinked ++ [(hashPrev, hash)])
    | _, _ => ({ pindex with nChainTx := pindex.nTx }, tree.mapBlocksUnlinked)
  else (pindex, tree.mapBlocksUnlinked)

/-- A turn of the loop of `LoadBlockIndexDB` (`main.cpp:3878-3893`). -/
def loadStep (tree : BlockTree) (hash : UInt256) : BlockTree :=
  match tree.mapBlockIndex.lookup hash with
  | none => tree
  | some pindex =>
    let pindex := { pindex with
      nChainWork := ((tree.mapBlockIndex.deref pindex.pprev).map CBlockIndex.nChainWork).getD 0 +
        getBlockProof pindex.nBits }
    let (pindex, mapBlocksUnlinked) := tree.countEntry hash pindex
    { tree with
      mapBlockIndex := tree.mapBlockIndex.insert hash pindex
      mapBlocksUnlinked
      setBlockIndexCandidates :=
        if pindex.nStatus.isValid BLOCK_VALID_TRANSACTIONS &&
            (pindex.nChainTx != 0 || pindex.pprev.isNone) then
          insert hash tree.setBlockIndexCandidates
        else tree.setBlockIndexCandidates }

/-- `LoadBlockIndexDB` of a process that holds its entries at `address`, where `hashBestBlock` is
the best block of the coins. -/
def loadBlockIndexDB (values : List (List UInt8)) (hashBestBlock : UInt256) (literal : UInt64)
    (address : UInt256 → Nat) : Option BlockTree :=
  match loadBlockIndexGuts hasher params values with
  | none => none
  | some mapBlockIndex =>
    let tree : BlockTree := (sortedByHeight mapBlockIndex address).foldl loadStep
      ⟨⟨mapBlockIndex, ∅, literal⟩, ∅, [], ∅, none, 1, address⟩
    match tree.mapBlockIndex.lookup hashBestBlock with
    | none => some tree
    | some _ => some { tree with tip := some hashBestBlock }.pruneBlockIndexCandidates

end BlockTree

/-- The networks (`chainparams.cpp:91-345`). -/
inductive NetworkParams : CChainParams → Prop where
  | main : NetworkParams mainParams
  | testnet : NetworkParams testNetParams
  | regtest (hashGenesisBlock : UInt256) : NetworkParams (regTestParams hashGenesisBlock)
  | unittest : NetworkParams unitTestParams

/-- The trees of a node over its processes; one that has no tip yet starts again with nothing but the
first block. -/
inductive TreeReached (c : StakeContext) (hasher : BlockHasher) (params : CChainParams)
    (genesis : CBlock) : BlockTree → Prop where
  | init {pos : CDiskBlockPos} (file : 0 ≤ pos.nFile) (literal : UInt64)
      (address : UInt256 → Nat) :
      TreeReached c hasher params genesis (BlockTree.init c genesis pos literal address)
  | move {tree tree' : BlockTree} (reached : TreeReached c hasher params genesis tree)
      (move : TreeMove c hasher tree tree') : TreeReached c hasher params genesis tree'
  | restart {tree tree' : BlockTree} (reached : TreeReached c hasher params genesis tree)
      {tip : UInt256} (active : tree.tip = some tip) {values : List (List UInt8)}
      (saved : values.Perm tree.save) (literal : UInt64) (address : UInt256 → Nat)
      (loaded : BlockTree.loadBlockIndexDB hasher params values tip literal address = some tree') :
      TreeReached c hasher params genesis tree'

end Esbcoin
