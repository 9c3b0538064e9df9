import Esbcoin.Chain.BlockIndex
import Esbcoin.Chain.Params
import Esbcoin.ValidationState

/-!
# Checks of transactions and blocks without context

`CheckTransaction`, `CheckBlockHeader` and `CheckBlock` (`src/main.cpp:978-1039, 3169-3322`).
What they ask of the rest of the node, of the hash functions and of scripts is the record
`CheckEnv`. The insertions of `CheckBlock` into `mapRejectedBlocks` are in `SwiftTX`.
-/

namespace Esbcoin

/-- `MAX_BLOCK_SIZE` (`primitives/block.h:16`). -/
def MAX_BLOCK_SIZE : Nat := 2000000

/-- `MAX_BLOCK_SIGOPS` (`main.h:66`). -/
def MAX_BLOCK_SIGOPS : Nat := MAX_BLOCK_SIZE / 50

/-- `GetSizeOfCompactSize` (`serialize.h:294-304`). -/
def getSizeOfCompactSize (nSize : Nat) : Nat :=
  if nSize < 253 then 1
  else if nSize ≤ 0xffff then 3
  else if nSize ≤ 0xffffffff then 5
  else 9

/-- The size of a byte vector behind its length. -/
def bytesSize (bytes : List UInt8) : Nat := getSizeOfCompactSize bytes.length + bytes.length

/-- `GetSerializeSize` of a transaction (`primitives/transaction.h:236-246`). -/
def CTransaction.getSerializeSize (tx : CTransaction) : Nat :=
  4 + (getSizeOfCompactSize tx.vin.length +
      (tx.vin.map fun txin => 36 + bytesSize txin.scriptSig + 4).sum) +
    (getSizeOfCompactSize tx.vout.length +
      (tx.vout.map fun out => 8 + bytesSize out.scriptPubKey).sum) + 4 + bytesSize tx.blob

/-- `GetSerializeSize` of a block (`primitives/block.h:104-110`). -/
def CBlock.getSerializeSize (block : CBlock) : Nat :=
  80 + (getSizeOfCompactSize block.vtx.length +
      (block.vtx.map CTransaction.getSerializeSize).sum) +
    if block.isProofOfStake then bytesSize block.vchBlockSig else 0

/-- `MoneyRange` (`main.cpp:973-976`). -/
def moneyRange (params : CChainParams) (nValueOut : Int) : Bool :=
  0 ≤ nValueOut && nValueOut ≤ params.maxMoneyOut

/-- What the checks ask of the rest of the node. -/
structure CheckEnv where
  params : CChainParams
  /-- `CheckProofOfWork`. -/
  checkProofOfWork : UInt256 → UInt32 → Bool
  getAdjustedTime : Int
  /-- `BuildMerkleTree`: the root, and whether it was mutated. -/
  buildMerkleTree : List CTransaction → UInt256 × Bool
  /-- `IsSporkActive(SPORK_2_SWIFTTX_BLOCK_FILTERING)`. -/
  sporkBlockFiltering : Bool
  mapLockedInputs : AssocMap COutPoint UInt256
  isInitialBlockDownload : Bool
  /-- `IsBlockPayeeValid`; `none` where it reads what is not there. -/
  isBlockPayeeValid : CBlock → Int → Option Bool
  /-- `CheckTxFilter`; `none` where it reads what is not there. -/
  checkTxFilter : CTransaction → Int → Option Bool
  getLegacySigOpCount : CTransaction → Nat

/-- `CValidationState::DoS`. -/
def dos (level : Int) (strRejectReason : String) : Failure :=
  .invalid { level, chRejectCode := REJECT_INVALID, strRejectReason }

/-- The loop of `CheckTransaction` over the outputs, from a partial sum. -/
def checkOutputs (env : CheckEnv) (tx : CTransaction) (nValueOut : Int) :
    List CTxOut → Except Failure Unit
  | [] => .ok ()
  | txout :: vout => do
    rejectIf (txout.isEmpty && !tx.isCoinBase && !tx.isCoinStake) (.invalid { level := 100 })
    rejectIf (txout.nValue < 0) (dos 100 "bad-txns-vout-negative")
    rejectIf (txout.nValue > env.params.maxMoneyOut) (dos 100 "bad-txns-vout-toolarge")
    rejectIf (!moneyRange env.params (nValueOut + txout.nValue))
      (dos 100 "bad-txns-txouttotal-toolarge")
    checkOutputs env tx (nValueOut + txout.nValue) vout

/-- The checks of the outpoints (`CheckTransaction`). -/
def checkPrevouts (tx : CTransaction) : Except Failure Unit :=
  if tx.isCoinBase then
    rejectIf (tx.vin.any fun txin => txin.scriptSig.length < 2 || txin.scriptSig.length > 150)
      (dos 100 "bad-cb-length")
  else
    rejectIf (tx.vin.any fun txin => txin.prevout.isNull) (dos 10 "bad-txns-prevout-null")

/-- The check of `CheckTransaction` against the address filter (`main.cpp:1030-1036`). -/
def checkFiltered (env : CheckEnv) (tx : CTransaction) (nBlockTime : Int) : Except Failure Unit :=
  if env.isInitialBlockDownload then .ok ()
  else do
    let passes ← orCrash (env.checkTxFilter tx nBlockTime)
    rejectIf (!passes) (dos 100 "filtered-address")

/-- `CheckTransaction` (`main.cpp:978-1039`). -/
def checkTransaction (env : CheckEnv) (tx : CTransaction) (nBlockTime : Int) :
    Except Failure Unit := do
  rejectIf tx.vin.isEmpty (dos 10 "bad-txns-vin-empty")
  rejectIf tx.vout.isEmpty (dos 10 "bad-txns-vout-empty")
  rejectIf (tx.getSerializeSize > MAX_BLOCK_SIZE) (dos 100 "bad-txns-oversize")
  checkOutputs env tx 0 tx.vout
  rejectIf (!decide tx.prevouts.Nodup) (dos 100 "bad-txns-inputs-duplicate")
  checkPrevouts tx
  checkFiltered env tx nBlockTime

/-- `CheckTransaction` on every transaction in order. -/
def checkTransactions (env : CheckEnv) (nBlockTime : Int) :
    List CTransaction → Except Failure Unit
  | [] => .ok ()
  | tx :: vtx => do
    checkTransaction env tx nBlockTime
    checkTransactions env nBlockTime vtx

/-- The time at which `CheckBlockHeader` ends the chain (`main.cpp:3177`). -/
def freezeTime : Int := 1646092800

/-- `CheckBlockHeader` (`main.cpp:3169-3186`), and what `CheckBlock` makes of its failure: the
levels of both calls add up. -/
def checkBlockHeader (env : CheckEnv) (block : CBlock) (fCheckPOW : Bool) :
    Except Failure Unit := do
  rejectIf (fCheckPOW && !env.checkProofOfWork block.getHash block.nBits)
    (.invalid ⟨50 + 100, REJECT_INVALID, "bad-header", true⟩)
  rejectIf (block.getBlockTime > freezeTime) (.invalid ⟨0, REJECT_INVALID, "bad-header", true⟩)

/-- The check of the merkle root (`CheckBlock`). -/
def checkMerkleRoot (env : CheckEnv) (block : CBlock) (fCheckMerkleRoot : Bool) :
    Except Failure Unit := do
  let (hashMerkleRoot2, mutated) := env.buildMerkleTree block.vtx
  rejectIf (fCheckMerkleRoot && block.hashMerkleRoot != hashMerkleRoot2)
    (.invalid ⟨100, REJECT_INVALID, "bad-txnmrklroot", true⟩)
  rejectIf (fCheckMerkleRoot && mutated)
    (.invalid ⟨100, REJECT_INVALID, "bad-txns-duplicate", true⟩)

/-- The checks of `CheckBlock` on coinbase and coinstake (`main.cpp:3229-3254`). The coinbase
of a proof-of-stake block is indexed before it is known to have an output. -/
def checkGeneration (block : CBlock) : Except Failure Unit :=
  match block.vtx with
  | [] => .error (dos 100 "bad-cb-missing")
  | coinBase :: vtx => do
    rejectIf (!coinBase.isCoinBase) (dos 100 "bad-cb-missing")
    rejectIf (vtx.any CTransaction.isCoinBase) (dos 100 "bad-cb-multiple")
    if block.isProofOfStake then do
      let first ← orCrash coinBase.vout.head?
      rejectIf (!first.isEmpty) (.invalid { level := 100 })
      rejectIf (coinBase.vout.length != 1) (.invalid { level := 100 })
      rejectIf (vtx.tail.any CTransaction.isCoinStake) (.invalid { level := 100 })
    else .ok ()

/-- The scan of `CheckBlock` for inputs locked by another transaction (`main.cpp:3257-3273`). -/
def checkLockedInputs (env : CheckEnv) (block : CBlock) : Except Failure Unit :=
  rejectIf (env.sporkBlockFiltering && block.vtx.any fun tx =>
      !tx.isCoinBase && tx.vin.any fun txin =>
        match env.mapLockedInputs.lookup txin.prevout with
        | some hash => hash != tx.getHash
        | none => false)
    (dos 0 "conflicting-tx-ix")

/-- The height of a block by its parent, 0 if that is unknown (`main.cpp:3279-3287`): the
parent is looked up, which finds the tip too where it is the parent. -/
def heightByParent (mapBlockIndex : BlockMap) (block : CBlock) : Int :=
  match mapBlockIndex.lookup block.hashPrevBlock with
  | some pindexPrev => pindexPrev.nHeight + 1
  | none => 0

/-- The check of the masternode payment (`main.cpp:3276-3308`). -/
def checkBlockPayee (env : CheckEnv) (mapBlockIndex : BlockMap) (chainActive : CChain)
    (block : CBlock) : Except Failure Unit :=
  match chainActive.tip with
  | none => .ok ()
  | some _ =>
    let nHeight := heightByParent mapBlockIndex block
    if nHeight = 0 ∨ env.isInitialBlockDownload then .ok ()
    else do
      let valid ← orCrash (env.isBlockPayeeValid block nHeight)
      rejectIf (!valid) (dos 0 "bad-cb-payee")

/-- `CheckBlock` (`main.cpp:3188-3322`). Its flag `fCheckPOW` is not read. -/
def checkBlock (env : CheckEnv) (mapBlockIndex : BlockMap) (chainActive : CChain)
    (block : CBlock) (fCheckMerkleRoot : Bool) : Except Failure Unit := do
  checkBlockHeader env block block.isProofOfWork
  rejectIf (block.getBlockTime >
      env.getAdjustedTime + (if block.isProofOfStake then 180 else 7200))
    (dos 0 "time-too-new")
  checkMerkleRoot env block fCheckMerkleRoot
  rejectIf (block.vtx.isEmpty || block.vtx.length > MAX_BLOCK_SIZE ||
      block.getSerializeSize > MAX_BLOCK_SIZE)
    (dos 100 "bad-blk-length")
  checkGeneration block
  checkLockedInputs env block
  checkBlockPayee env mapBlockIndex chainActive block
  checkTransactions env block.getBlockTime block.vtx
  rejectIf ((block.vtx.map env.getLegacySigOpCount).sum > MAX_BLOCK_SIGOPS)
    (.invalid ⟨100, REJECT_INVALID, "bad-blk-sigops", true⟩)

/-! ## What a block that passes is like -/

/-- A block that passes has a coinbase first and only there. -/
theorem coinBase_of_checkBlock {env : CheckEnv} {mapBlockIndex : BlockMap}
    {chainActive : CChain} {block : CBlock} {fCheckMerkleRoot : Bool}
    (h : checkBlock env mapBlockIndex chainActive block fCheckMerkleRoot = .ok ()) :
    ∃ coinBase vtx, block.vtx = coinBase :: vtx ∧ coinBase.isCoinBase = true ∧
      ∀ tx ∈ vtx, tx.isCoinBase = false := by
  simp only [checkBlock, bind_ok_unit] at h
  obtain ⟨-, -, -, -, generation, -⟩ := h
  unfold checkGeneration at generation
  split at generation
  · cases generation
  rename_i coinBase vtx hvtx
  simp only [bind_ok_unit, rejectIf_eq_ok, Bool.not_eq_eq_eq_not, Bool.not_false,
    List.any_eq_false, Bool.not_eq_true] at generation
  exact ⟨coinBase, vtx, hvtx, generation.1, generation.2.1⟩

end Esbcoin
