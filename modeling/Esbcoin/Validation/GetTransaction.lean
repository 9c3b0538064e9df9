import Esbcoin.Validation.ConnectBlock

/-!
# Finding a transaction

`GetTransaction` (`src/main.cpp:1519-1582`): in the memory pool, by the transaction index, or in the
block of the active chain in which the unspent outputs have it.
-/

namespace Esbcoin

/-- `nStakeMinAge` (`main.cpp:78`). -/
def nStakeMinAge : UInt32 := 4 * 60 * 60

/-- `CBlock::GetProofOfStake` (`primitives/block.h:148-151`). -/
def CBlock.getProofOfStake (block : CBlock) : COutPoint × UInt32 :=
  match block.isProofOfStake, block.vtx with
  | true, _ :: coinStake :: _ =>
    match coinStake.vin with
    | txin :: _ => (txin.prevout, block.nTime)
    | [] => (COutPoint.null, 0)
  | _, _ => (COutPoint.null, 0)

/-- Where a node finds transactions. -/
structure TxSource where
  mempool : AssocMap UInt256 CTransaction
  fTxIndex : Bool
  txIndex : AssocMap UInt256 CDiskTxPos
  /-- What is read from a block file at a position: the hash of the header and the transaction. -/
  readTx : CDiskTxPos → Option (UInt256 × CTransaction)
  /-- `ReadBlockFromDisk` of the entry filed under a hash. -/
  readBlockFromDisk : UInt256 → Option CBlock
  pcoinsTip : FlatCoins

/-- The block of the active chain that is scanned (`main.cpp:1555-1565`). -/
def TxSource.pindexSlow (source : TxSource) (chainActive : CChain) (hash : UInt256) :
    Option UInt256 :=
  (source.pcoinsTip.get hash).bind fun coins =>
    if coins.nHeight > 0 then chainActive.atHeight coins.nHeight else none

/-- `GetTransaction` (`main.cpp:1520-1582`): the transaction and the hash of its block, which is
null for one of the memory pool. -/
def getTransaction (source : TxSource) (chainActive : CChain) (hash : UInt256)
    (fAllowSlow : Bool) : Option (CTransaction × UInt256) :=
  match source.mempool.lookup hash with
  | some tx => some (tx, 0)
  | none =>
    if source.fTxIndex then
      (source.txIndex.lookup hash).bind fun postx =>
        (source.readTx postx).bind fun (hashBlock, tx) =>
          if tx.getHash ≠ hash then none else some (tx, hashBlock)
    else if !fAllowSlow then none
    else
      (source.pindexSlow chainActive hash).bind fun pindexSlow =>
        (source.readBlockFromDisk pindexSlow).bind fun block =>
          (block.vtx.find? fun tx => tx.getHash == hash).map fun tx => (tx, pindexSlow)

end Esbcoin
