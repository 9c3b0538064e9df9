import Esbcoin.Chain.Rewards
import Esbcoin.Coins.UpdateCoins
import Esbcoin.Validation.CheckBlock

/-!
# Connecting and disconnecting a block

`CheckInputs`, `ConnectBlock` and `DisconnectBlock` (`src/main.cpp:1943-2137, 2178-2380`). A
call works on the node's tables, on the block index entry it is given and on a view; what it
has changed stays changed when it fails. The entry may be one of `mapBlockIndex`, and is
changed there too, or a temporary one without a hash (`TestBlockValidity`). What the scripts,
the disk and the filter answer is the record `ConnectEnv`.
-/

namespace Esbcoin

/-- A view of the unspent outputs at a block. -/
structure CoinsView where
  coins : FlatCoins
  hashBlock : UInt256

/-- `CDiskTxPos` (`main.h:266-291`). -/
structure CDiskTxPos where
  pos : Option CDiskBlockPos
  nTxOffset : Nat
deriving DecidableEq, Repr

/-- A `CBlockUndo` in an undo file, with the checksum behind it. -/
structure UndoRecord where
  vtxundo : List (List DiskTxInUndo)
  hashChecksum : UInt256
deriving DecidableEq, Repr

/-- The address filter (`spork.cpp:2170-2558`): the addresses with their times. -/
structure TxFilter where
  txFilterState : Bool := false
  txFilterTarget : Int := 0
  mapFilterAddress : AssocMap (List UInt8) Int := ∅

/-- The tables of the node that connecting a block reads and writes. -/
structure NodeState where
  mapBlockIndex : BlockMap
  chainActive : CChain
  mapStakeSpent : AssocMap COutPoint Int := ∅
  undoFiles : AssocMap CDiskBlockPos UndoRecord := ∅
  /-- The entries of `pblocktree` under `'b'`. -/
  blockTreeDB : AssocMap UInt256 CBlockIndex := ∅
  /-- The entries of `pblocktree` under `'t'`. -/
  txIndex : AssocMap UInt256 CDiskTxPos := ∅
  txFilter : TxFilter := {}

/-- What a call works on. -/
structure ConnectState where
  node : NodeState
  pindex : CBlockIndex
  view : CoinsView

/-- What connecting a block asks of the rest of the node. -/
structure ConnectEnv extends CheckEnv where
  /-- `Checkpoints::GetTotalBlocksEstimate`. -/
  getTotalBlocksEstimate : Int
  getP2SHSigOpCount : CTransaction → FlatCoins → Nat
  /-- `VerifyScript` of an input against a script, under flags: the verdict and the text of
  the error. -/
  verifyScript : CScript → CTransaction → Nat → UInt32 → Bool × String
  nScriptCheckThreads : Nat
  /-- `pblocktree->WriteBlockIndex` succeeds. -/
  writeBlockIndex : Bool
  /-- `FindUndoPos` succeeds. -/
  findUndoPos : Bool
  /-- `CBlockUndo::WriteToDisk`: the position it has written to. -/
  writeToDisk : Option Nat
  /-- The hash over the previous block's hash and the undo data. -/
  hashUndo : UInt256 → List (List DiskTxInUndo) → UInt256
  fTxIndex : Bool
  /-- `pblocktree->WriteTxIndex` succeeds. -/
  writeTxIndex : Bool
  initTxFilter : TxFilter → TxFilter
  buildTxFilter : TxFilter → TxFilter

/-- A validation function: a failure keeps what was changed before it. -/
abbrev Validation := EStateM Failure ConnectState

/-- A check that changes nothing. -/
def checking {α : Type} (check : ConnectState → Except Failure α) : Validation α := fun s =>
  match check s with
  | .ok a => .ok a s
  | .error failure => .error failure s

/-- A change that cannot fail. -/
def changing (change : ConnectState → ConnectState) : Validation Unit := fun s =>
  .ok () (change s)

section Monad

variable {α β : Type} {x : Validation α} {f : α → Validation β}
variable {s s' : ConnectState} {a : α} {b : β}

/-- A sequence that succeeds has succeeded in its first part. -/
theorem validation_bind_ok : (x >>= f) s = .ok b s' ↔
    ∃ a middle, x s = .ok a middle ∧ f a middle = .ok b s' := by
  show EStateM.bind x f s = _ ↔ _
  unfold EStateM.bind
  cases x s <;> simp

theorem checking_ok {check : ConnectState → Except Failure α} :
    checking check s = .ok a s' ↔ check s = .ok a ∧ s = s' := by
  unfold checking
  cases check s with
  | ok a' => simp
  | error failure => simp

theorem changing_ok {change : ConnectState → ConnectState} {u : Unit} :
    changing change s = .ok u s' ↔ s' = change s := by
  simp [changing, eq_comm]

end Monad

namespace ConnectState

/-- Change the entry the call was given, in `mapBlockIndex` too if it is one of its. -/
def setIndex (s : ConnectState) (pindex : CBlockIndex) : ConnectState :=
  { s with
    pindex
    node :=
      match pindex.phashBlock with
      | some hash => { s.node with mapBlockIndex := s.node.mapBlockIndex.insert hash pindex }
      | none => s.node }

/-- `pindex->pprev`, as far as the pointer is not null. -/
def pindexPrev (s : ConnectState) : Option CBlockIndex :=
  s.node.mapBlockIndex.deref s.pindex.pprev

end ConnectState

/-! ## The inputs of a transaction -/

namespace FlatCoins

/-- `CCoinsViewCache::GetOutputFor` (`coins.cpp:217-222`); `none` is its assertion. -/
def getOutputFor (inputs : FlatCoins) (input : CTxIn) : Option CTxOut :=
  match inputs.get input.prevout.hash with
  | some coins =>
    if coins.isAvailable input.prevout.n then coins.vout[input.prevout.n.toNat]? else none
  | none => none

/-- The loop of `CCoinsViewCache::GetValueIn`. -/
def sumInputs (inputs : FlatCoins) : List CTxIn → Option Int
  | [] => some 0
  | txin :: vin =>
    match inputs.getOutputFor txin, inputs.sumInputs vin with
    | some out, some rest => some (out.nValue + rest)
    | _, _ => none

/-- `CCoinsViewCache::GetValueIn` (`coins.cpp:224-234`). -/
def getValueIn (inputs : FlatCoins) (tx : CTransaction) : Option Int :=
  if tx.isCoinBase then some 0 else inputs.sumInputs tx.vin

/-- `CCoinsViewCache::HaveInputs` (`coins.cpp:236-248`). -/
def haveInputs (inputs : FlatCoins) (tx : CTransaction) : Bool :=
  tx.isCoinBase || tx.vin.all fun txin =>
    match inputs.get txin.prevout.hash with
    | some coins => coins.isAvailable txin.prevout.n
    | none => false

end FlatCoins

/-- `SCRIPT_VERIFY_P2SH | SCRIPT_VERIFY_DERSIG` (`script/interpreter.h`). -/
def blockScriptFlags : UInt32 := 0x1 ||| 0x4

/-- `STANDARD_NOT_MANDATORY_VERIFY_FLAGS` (`script/standard.h:40-55`). -/
def STANDARD_NOT_MANDATORY_VERIFY_FLAGS : UInt32 := 0x4 ||| 0x2 ||| 0x40 ||| 0x10 ||| 0x80

/-- `MANDATORY_SCRIPT_VERIFY_FLAGS` (`script/standard.h:40`). -/
def MANDATORY_SCRIPT_VERIFY_FLAGS : UInt32 := 0x1

/-- `STANDARD_SCRIPT_VERIFY_FLAGS` (`script/standard.h:47-52`). -/
def STANDARD_SCRIPT_VERIFY_FLAGS : UInt32 :=
  MANDATORY_SCRIPT_VERIFY_FLAGS ||| STANDARD_NOT_MANDATORY_VERIFY_FLAGS

/-- The first loop of `CheckInputs` (`main.cpp:1959-1979`), from a partial sum. -/
def checkInputValues (params : CChainParams) (inputs : FlatCoins) (nSpendHeight nValueIn : Int) :
    List CTxIn → Except Failure Int
  | [] => .ok nValueIn
  | txin :: vin => do
    let coins ← orCrash (inputs.get txin.prevout.hash)
    rejectIf ((coins.fCoinBase || coins.fCoinStake) &&
        nSpendHeight - coins.nHeight < params.maturity)
      (dos 0 "bad-txns-premature-spend-of-coinbase")
    let out ← orCrash coins.vout[txin.prevout.n.toNat]?
    rejectIf (!moneyRange params out.nValue || !moneyRange params (nValueIn + out.nValue))
      (dos 100 "bad-txns-inputvalues-outofrange")
    checkInputValues params inputs nSpendHeight (nValueIn + out.nValue) vin

/-- The fee checks of `CheckInputs` (`main.cpp:1981-1995`). -/
def checkFee (params : CChainParams) (tx : CTransaction) (nValueIn : Int) :
    Except Failure Unit :=
  if tx.isCoinStake then .ok ()
  else do
    let nValueOut ← orCrash tx.getValueOut
    rejectIf (nValueIn < nValueOut) (dos 100 "bad-txns-in-belowout")
    rejectIf (nValueIn - nValueOut < 0) (dos 100 "bad-txns-fee-negative")
    rejectIf (!moneyRange params (nValueIn - nValueOut)) (dos 100 "bad-txns-fee-outofrange")

/-- One turn of the script loop of `CheckInputs` (`main.cpp:2004-2038`) without a queue. -/
def checkScript (env : ConnectEnv) (scriptPubKey : CScript) (tx : CTransaction) (nIn : Nat)
    (flags : UInt32) : Except Failure Unit :=
  let (accepted, error) := env.verifyScript scriptPubKey tx nIn flags
  let (acceptedMandatory, noError) :=
    env.verifyScript scriptPubKey tx nIn (flags &&& ~~~STANDARD_NOT_MANDATORY_VERIFY_FLAGS)
  if accepted then .ok ()
  else if flags &&& STANDARD_NOT_MANDATORY_VERIFY_FLAGS ≠ 0 ∧ acceptedMandatory then
    .error (.invalid ⟨0, REJECT_NONSTANDARD,
      "non-mandatory-script-verify-flag (" ++ noError ++ ")", false⟩)
  else
    .error (dos 100 ("mandatory-script-verify-flag-failed (" ++ error ++ ")"))

/-- The script loop of `CheckInputs`. With threads the checks are queued, and the result is
what the queue will find; without, the first that fails ends the call. -/
def checkScripts (env : ConnectEnv) (inputs : FlatCoins) (tx : CTransaction) (flags : UInt32)
    (nIn : Nat) : List CTxIn → Except Failure Bool
  | [] => .ok true
  | txin :: vin => do
    let coins ← orCrash (inputs.get txin.prevout.hash)
    let out ← orCrash coins.vout[txin.prevout.n.toNat]?
    let queued := env.nScriptCheckThreads ≠ 0
    if queued then .ok () else checkScript env out.scriptPubKey tx nIn flags
    let rest ← checkScripts env inputs tx flags (nIn + 1) vin
    .ok ((env.verifyScript out.scriptPubKey tx nIn flags).1 && rest)

/-- `CheckInputs` (`main.cpp:1943-2040`); the result is what the script queue will find. -/
def checkInputs (env : ConnectEnv) (mapBlockIndex : BlockMap) (view : CoinsView)
    (tx : CTransaction) (fScriptChecks : Bool) (flags : UInt32) : Except Failure Bool :=
  if tx.isCoinBase then .ok true
  else do
    rejectIf (!view.coins.haveInputs tx) (.invalid { level := 0 })
    let pindexPrev ← orCrash (mapBlockIndex.lookup view.hashBlock)
    let nValueIn ←
      checkInputValues env.params view.coins (pindexPrev.nHeight + 1) 0 tx.vin
    checkFee env.params tx nValueIn
    if fScriptChecks then checkScripts env view.coins tx flags 0 tx.vin else .ok true

/-! ## ConnectBlock -/

/-- What `ConnectBlock` counts and collects over the transactions. -/
structure BlockTally where
  nFees : Int := 0
  nValueIn : Int := 0
  nValueOut : Int := 0
  nSigOps : Nat := 0
  vtxundo : List CTxUndo := []
  vPos : List (UInt256 × CDiskTxPos) := []
  pos : CDiskTxPos
  /-- What the script queue will find. -/
  scriptsOk : Bool := true

/-- What `ConnectBlock` adds to the fees for a transaction (`main.cpp:2268-2269`). -/
def feeOf (inputs : FlatCoins) (tx : CTransaction) : Option Int :=
  if tx.isCoinStake then some 0
  else
    match inputs.getValueIn tx, tx.getValueOut with
    | some valueIn, some valueOut => some (valueIn - valueOut)
    | _, _ => none

/-- The checks of `ConnectBlock` on a transaction that is no coinbase, with its value in
(`main.cpp:2252-2278`). -/
def connectInputs (env : ConnectEnv) (mapBlockIndex : BlockMap) (view : CoinsView)
    (tx : CTransaction) (fScriptChecks : Bool) (tally : BlockTally) :
    Except Failure BlockTally :=
  if tx.isCoinBase then .ok tally
  else do
    rejectIf (!view.coins.haveInputs tx) (dos 100 "bad-txns-inputs-missingorspent")
    let nSigOps := tally.nSigOps + env.getP2SHSigOpCount tx view.coins
    rejectIf (nSigOps > MAX_BLOCK_SIGOPS) (dos 100 "bad-blk-sigops")
    let nFee ← orCrash (feeOf view.coins tx)
    let valueIn ← orCrash (view.coins.getValueIn tx)
    let scriptsOk ← checkInputs env mapBlockIndex view tx fScriptChecks blockScriptFlags
    .ok { tally with
      nSigOps
      nFees := tally.nFees + nFee
      nValueIn := tally.nValueIn + valueIn
      scriptsOk := tally.scriptsOk && scriptsOk }

/-- One turn of the loop of `ConnectBlock` over the transactions (`main.cpp:2241-2290`). -/
def connectTransaction (env : ConnectEnv) (fScriptChecks : Bool) (i : Nat) (tx : CTransaction)
    (tally : BlockTally) : Validation BlockTally := fun s =>
  let nSigOps := tally.nSigOps + env.getLegacySigOpCount tx
  let result : Except Failure (BlockTally × FlatCoins) := do
    rejectIf (nSigOps > MAX_BLOCK_SIGOPS) (dos 100 "bad-blk-sigops")
    let tally ← connectInputs env s.node.mapBlockIndex s.view tx fScriptChecks
      { tally with nSigOps }
    let valueOut ← orCrash tx.getValueOut
    let (coins, txundo) ← orCrash (updateCoins tx s.view.coins s.pindex.nHeight)
    .ok ({ tally with
      nValueOut := tally.nValueOut + valueOut
      vtxundo := if i = 0 then tally.vtxundo else tally.vtxundo ++ [txundo]
      vPos := tally.vPos ++ [(tx.getHash, tally.pos)]
      pos := { tally.pos with nTxOffset := tally.pos.nTxOffset + tx.getSerializeSize } }, coins)
  match result with
  | .ok (tally, coins) => .ok tally { s with view := { s.view with coins } }
  | .error failure => .error failure s

/-- The loop of `ConnectBlock` over the transactions. -/
def connectTransactions (env : ConnectEnv) (fScriptChecks : Bool) :
    Nat → List CTransaction → BlockTally → Validation BlockTally
  | _, [], tally => pure tally
  | i, tx :: vtx, tally => do
    let tally ← connectTransaction env fScriptChecks i tx tally
    connectTransactions env fScriptChecks (i + 1) vtx tally

/-- The check of the block again (`main.cpp:2182-2183`). -/
def checkAgain (env : ConnectEnv) (block : CBlock) (fJustCheck fAlreadyChecked : Bool)
    (s : ConnectState) : Except Failure Unit :=
  if fAlreadyChecked then .ok ()
  else checkBlock env.toCheckEnv s.node.mapBlockIndex s.node.chainActive block (!fJustCheck)

/-- The rules on the kind of the block (`main.cpp:2199-2205`). -/
def checkPeriod (params : CChainParams) (block : CBlock) (pindex : CBlockIndex) :
    Except Failure Unit := do
  rejectIf (pindex.nHeight ≤ params.lastPOWBlock && block.isProofOfStake) (dos 100 "PoS-early")
  rejectIf (pindex.nHeight > params.lastPOWBlock && block.isProofOfWork) (dos 100 "PoW-ended")

/-- The rule against overwriting transactions, for entries without a hash
(`main.cpp:2216-2225`). -/
def enforceBIP30 (block : CBlock) (s : ConnectState) : Except Failure Unit :=
  rejectIf (s.pindex.phashBlock.isNone &&
      block.vtx.any fun tx => (s.view.coins.get tx.getHash).isSome)
    (dos 100 "bad-txns-BIP30")

/-- Money supply and mint amount, which go into the entry and to disk (`main.cpp:2293-2299`). -/
def recordSupply (env : ConnectEnv) (block : CBlock) (tally : BlockTally) : Validation Unit :=
  fun s =>
    let nMoneySupplyPrev := (s.pindexPrev.map CBlockIndex.nMoneySupply).getD 0
    let nMoneySupply := nMoneySupplyPrev + tally.nValueOut - tally.nValueIn
    let s := s.setIndex
      { s.pindex with nMoneySupply, nMint := nMoneySupply - nMoneySupplyPrev }
    if env.writeBlockIndex then
      .ok () { s with node := { s.node with
        blockTreeDB := s.node.blockTreeDB.insert block.getHash s.pindex } }
    else .error (.error "Connect() : WriteBlockIndex for pindex failed") s

/-- The check of the minted amount (`main.cpp:2306-2314`). -/
def checkMint (env : ConnectEnv) (block : CBlock) (nFees : Int) (s : ConnectState) :
    Except Failure Unit := do
  let pindexPrev ← orCrash s.pindexPrev
  let limit ← orCrash
    (mintLimit env.params s.node.mapBlockIndex s.node.chainActive pindexPrev.nHeight)
  let nExpectedMint := if block.isProofOfWork then limit + nFees else limit
  rejectIf (!isBlockValueValid s.node.chainActive nExpectedMint s.pindex.nMint)
    (dos 100 "bad-cb-amount")

/-- Write the undo data, unless the entry has some already (`main.cpp:2326-2342`). -/
def writeUndo (env : ConnectEnv) (vtxundo : List CTxUndo) : Validation Unit := fun s =>
  if s.pindex.getUndoPos.isSome && s.pindex.nStatus.isValid BLOCK_VALID_SCRIPTS then .ok () s
  else if s.pindex.getUndoPos.isSome then
    .ok () (s.setIndex
      { s.pindex with nStatus := s.pindex.nStatus.raiseValidity BLOCK_VALID_SCRIPTS })
  else if !env.findUndoPos then .error (.error "ConnectBlock() : FindUndoPos failed") s
  else
    match env.writeToDisk, s.pindex.pprev with
    | none, _ => .error (.abort "Failed to write undo data") s
    | some _, none => .error .crash s
    | some nPos, some hashPrev =>
      let disk := vtxundo.map fun txundo => txundo.vprevout.map CTxInUndo.serialize
      let nStatus := { s.pindex.nStatus with haveUndo := true }
      .ok () (ConnectState.setIndex
        { s with node := { s.node with
          undoFiles := s.node.undoFiles.insert ⟨s.pindex.nFile, nPos⟩
            ⟨disk, env.hashUndo hashPrev disk⟩ } }
        { s.pindex with
          nUndoPos := nPos, nStatus := nStatus.raiseValidity BLOCK_VALID_SCRIPTS })

/-- Write the transaction index (`main.cpp:2344-2346`). -/
def writeTxIndex (env : ConnectEnv) (vPos : List (UInt256 × CDiskTxPos)) : Validation Unit :=
  fun s =>
    if !env.fTxIndex then .ok () s
    else if !env.writeTxIndex then .error (.abort "Failed to write transaction index") s
    else
      .ok () { s with node := { s.node with
        txIndex := vPos.foldl (fun txIndex entry => txIndex.insert entry.1 entry.2)
          s.node.txIndex } }

/-- The outpoints that the block spends. -/
def CBlock.spentOutPoints (block : CBlock) : List COutPoint :=
  (block.vtx.filter fun tx => !tx.isCoinBase).flatMap CTransaction.prevouts

/-- The entries of `mapStakeSpent` after a block at `nHeight` (`main.cpp:2348-2367`). -/
def addStakeSpent (params : CChainParams) (block : CBlock) (nHeight : Int)
    (mapStakeSpent : AssocMap COutPoint Int) : AssocMap COutPoint Int :=
  (mapStakeSpent.insertNewAll block.spentOutPoints nHeight).retain fun _ height =>
    !decide (height < nHeight - params.maxReorganizationDepth)

/-- Build the filter if it is due (`main.cpp:2366-2367`). -/
def filterAfterConnect (env : ConnectEnv) (nHeight : Int) (filter : TxFilter) : TxFilter :=
  if !filter.txFilterState && filter.txFilterTarget > nHeight then env.buildTxFilter filter
  else filter

/-- `view.SetBestBlock(pindex->GetBlockHash())`. -/
def setBestBlock : Validation Unit := fun s =>
  match s.pindex.phashBlock with
  | none => .error .crash s
  | some hash => .ok () { s with view := { s.view with hashBlock := hash } }

/-- The part of `ConnectBlock` behind the point where a mere check returns. -/
def writeBlock (env : ConnectEnv) (block : CBlock) (tally : BlockTally) : Validation Unit := do
  writeUndo env tally.vtxundo
  writeTxIndex env tally.vPos
  changing fun s => { s with node := { s.node with
    mapStakeSpent := addStakeSpent env.params block s.pindex.nHeight s.node.mapStakeSpent
    txFilter := filterAfterConnect env s.pindex.nHeight s.node.txFilter } }
  setBestBlock

/-- The part of `ConnectBlock` behind the genesis case. -/
def connectNonGenesis (env : ConnectEnv) (block : CBlock) (fJustCheck : Bool) :
    Validation Unit := do
  checking fun s => checkPeriod env.params block s.pindex
  checking (enforceBIP30 block)
  -- `reserve(block.vtx.size() - 1)`
  checking fun _ => rejectIf block.vtx.isEmpty .crash
  let s ← get
  let tally ← connectTransactions env (s.pindex.nHeight ≥ env.getTotalBlocksEstimate) 0 block.vtx
    { pos := ⟨s.pindex.getBlockPos, getSizeOfCompactSize block.vtx.length⟩ }
  recordSupply env block tally
  checking (checkMint env block tally.nFees)
  checking fun _ => rejectIf (!tally.scriptsOk) (.invalid { level := 100 })
  if fJustCheck then pure () else writeBlock env block tally

/-- `ConnectBlock` (`main.cpp:2178-2380`). -/
def connectBlock (env : ConnectEnv) (block : CBlock) (fJustCheck fAlreadyChecked : Bool) :
    Validation Unit := do
  checking (checkAgain env block fJustCheck fAlreadyChecked)
  checking fun s => rejectIf (s.pindex.pprev.getD 0 != s.view.hashBlock) .crash
  if block.getHash = env.params.hashGenesisBlock then setBestBlock
  else connectNonGenesis env block fJustCheck

/-! ## DisconnectBlock -/

/-- Reads all or none. -/
def readAll {α β : Type} (read : α → Option β) : List α → Option (List β)
  | [] => some []
  | a :: rest =>
    match read a, readAll read rest with
    | some b, some rest => some (b :: rest)
    | _, _ => none

/-- `CBlockUndo::ReadFromDisk` (`main.cpp:5891-5915`). -/
def readUndo (env : ConnectEnv) (record : UndoRecord) (hashBlock : UInt256) :
    Option (List CTxUndo) :=
  match readAll (readAll DiskTxInUndo.unserialize) record.vtxundo with
  | none => none
  | some vtxundo =>
    if record.hashChecksum = env.hashUndo hashBlock (vtxundo.map (·.map CTxInUndo.serialize)) then
      some (vtxundo.map CTxUndo.mk)
    else none

/-- Clear the filter if the block was below its target (`main.cpp:2122-2126`). -/
def filterAfterDisconnect (env : ConnectEnv) (nHeight : Int) (filter : TxFilter) : TxFilter :=
  if filter.txFilterState && filter.txFilterTarget > nHeight then
    { env.initTxFilter filter with txFilterState := false }
  else filter

/-- The loop of `DisconnectBlock`, on view and `mapStakeSpent`; the result is `fClean`. -/
def undoTransactions (block : CBlock) (vtxundo : List CTxUndo) : Validation Bool := fun s =>
  match disconnectTransactions s.pindex.nHeight (block.vtx.zip (none :: vtxundo.map some))
      ⟨s.view.coins, s.node.mapStakeSpent, true⟩ with
  | .ok () t =>
    .ok t.fClean { s with
      view := { s.view with coins := t.coins }
      node := { s.node with mapStakeSpent := t.mapStakeSpent } }
  | .error failure t =>
    .error failure { s with
      view := { s.view with coins := t.coins }
      node := { s.node with mapStakeSpent := t.mapStakeSpent } }

/-- The undo data of the block (`main.cpp:2053-2060`). -/
def loadUndo (env : ConnectEnv) (block : CBlock) (s : ConnectState) :
    Except Failure (List CTxUndo) := do
  let pos ← match s.pindex.getUndoPos with
    | some pos => .ok pos
    | none => .error (.error "DisconnectBlock() : no undo data available")
  let hashPrev ← orCrash s.pindex.pprev
  let vtxundo ← match (s.node.undoFiles.lookup pos).bind fun record =>
      readUndo env record hashPrev with
    | some vtxundo => .ok vtxundo
    | none => .error (.error "DisconnectBlock() : failure reading undo data")
  rejectIf (vtxundo.length + 1 != block.vtx.length)
    (.error "DisconnectBlock() : block and undo data inconsistent")
  .ok vtxundo

/-- `DisconnectBlock` (`main.cpp:2042-2137`); the result is `fClean`, which a caller that
passes `pfClean` gets beside success and another as success. -/
def disconnectBlock (env : ConnectEnv) (block : CBlock) : Validation Bool := do
  checking fun s => rejectIf (s.pindex.getBlockHash != s.view.hashBlock) .crash
  let vtxundo ← checking (loadUndo env block)
  let fClean ← undoTransactions block vtxundo
  changing fun s => { s with
    node := { s.node with
      txFilter := filterAfterDisconnect env s.pindex.nHeight s.node.txFilter }
    view := { s.view with hashBlock := s.pindex.pprev.getD 0 } }
  return fClean

def lenientEnv : ConnectEnv where
  params := mainParams
  checkProofOfWork _ _ := true
  getAdjustedTime := 1600000000
  buildMerkleTree _ := (0, false)
  sporkBlockFiltering := false
  mapLockedInputs := ∅
  isInitialBlockDownload := false
  isBlockPayeeValid _ _ := some true
  checkTxFilter _ _ := some true
  getLegacySigOpCount _ := 0
  getTotalBlocksEstimate := 0
  getP2SHSigOpCount _ _ := 0
  verifyScript _ _ _ _ := (true, "No error")
  nScriptCheckThreads := 0
  writeBlockIndex := true
  findUndoPos := true
  writeToDisk := some 8
  hashUndo _ _ := 0
  fTxIndex := true
  writeTxIndex := true
  initTxFilter filter := filter
  buildTxFilter filter := filter

end Esbcoin
