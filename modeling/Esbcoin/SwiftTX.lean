import Esbcoin.Chain.Params
import Esbcoin.Lib.AssocMap
import Esbcoin.Script
import Esbcoin.ValidationState

/-!
# SwiftTX transaction locks

Rendering of `src/swifttx.h` and `src/swifttx.cpp`: the lock tables, the messages `ix` and
`txlvote`, the node's own lock requests and votes, and the expiry of locks, with the two
places of `src/main.cpp` that reject a transaction because of a lock. What the rest of the
node answers while one message is handled (clock, chain height, coin heights, masternode
list, mempool) is the record `SwiftTXEnv`; it is free at every step.
-/

namespace Esbcoin.SwiftTX

/-- `SWIFTTX_SIGNATURES_REQUIRED` (`swifttx.h:27`). -/
def SWIFTTX_SIGNATURES_REQUIRED : Int := 6

/-- `SWIFTTX_SIGNATURES_TOTAL` (`swifttx.h:28`). -/
def SWIFTTX_SIGNATURES_TOTAL : Int := 10

/-- `MIN_SWIFTTX_FEE` (`swifttx.h:38`). -/
def MIN_SWIFTTX_FEE : Int := 10000000

/-- `CENT` (`amount.h`). -/
def CENT : Int := 1000000

/-- `CConsensusVote` (`swifttx.h:68-91`). -/
structure CConsensusVote where
  vinMasternode : CTxIn
  txHash : UInt256
  nBlockHeight : Int
  vchMasterNodeSignature : List UInt8
deriving DecidableEq, Repr

/-- `CConsensusVote::GetHash` (`swifttx.cpp:461-464`): height and signature do not enter. -/
def CConsensusVote.getHash (vote : CConsensusVote) : UInt256 :=
  vote.vinMasternode.prevout.hash +
    BitVec.ofNat 256 vote.vinMasternode.prevout.n.toNat + vote.txHash

/-- `CTransactionLock` (`swifttx.h:93-109`). -/
structure CTransactionLock where
  nBlockHeight : Int
  txHash : UInt256
  vecConsensusVotes : List CConsensusVote
  nExpiration : Int
  nTimeout : Int
deriving DecidableEq, Repr

namespace CTransactionLock

/-- `CTransactionLock::AddSignature` (`swifttx.cpp:543-546`). -/
def addSignature (lock : CTransactionLock) (cv : CConsensusVote) : CTransactionLock :=
  { lock with vecConsensusVotes := lock.vecConsensusVotes ++ [cv] }

/-- `CTransactionLock::CountSignatures` (`swifttx.cpp:548-565`): only the votes for the
lock's own block height, and -1 while that height is unknown. -/
def countSignatures (lock : CTransactionLock) : Int :=
  if lock.nBlockHeight = 0 then -1
  else (lock.vecConsensusVotes.filter (fun v => v.nBlockHeight == lock.nBlockHeight)).length

/-- A lock that "collected" its signatures, the test of `swifttx.cpp:116` and `:354`. -/
def isComplete (lock : CTransactionLock) : Bool :=
  SWIFTTX_SIGNATURES_REQUIRED ≤ lock.countSignatures

end CTransactionLock

/-- What the node sends or starts while it handles a message. -/
inductive SwiftTXEffect where
  | relayTxLockRequest (hash : UInt256)
  | relayTxLockVote (hash : UInt256)
  | askForMN (vin : CTxIn)
  | reprocessBlocks (nBlocks : Int)
deriving DecidableEq, Repr

/-- The tables of `swifttx.cpp:28-34`, `mapRejectedBlocks` of `main.cpp`, and the effects so
far. -/
structure SwiftTXState where
  mapTxLockReq : AssocMap UInt256 CTransaction
  mapTxLockReqRejected : AssocMap UInt256 CTransaction
  mapTxLockVote : AssocMap UInt256 CConsensusVote
  mapTxLocks : AssocMap UInt256 CTransactionLock
  mapLockedInputs : AssocMap COutPoint UInt256
  mapUnknownVotes : AssocMap UInt256 Int
  mapRejectedBlocks : AssocMap UInt256 Int
  effects : List SwiftTXEffect

namespace SwiftTXState

/-- The tables of a node that has just started. -/
def init : SwiftTXState := ⟨∅, ∅, ∅, ∅, ∅, ∅, ∅, []⟩

/-- Send or start `effect`. -/
def emit (s : SwiftTXState) (effect : SwiftTXEffect) : SwiftTXState :=
  { s with effects := s.effects ++ [effect] }

end SwiftTXState

/-- The answers of the rest of the node while one message is handled. -/
structure SwiftTXEnv where
  /-- `fLiteMode`. -/
  fLiteMode : Bool := false
  /-- `IsSporkActive(SPORK_1_SWIFTTX)`. -/
  sporkSwiftTX : Bool := true
  /-- `IsSporkActive(SPORK_2_SWIFTTX_BLOCK_FILTERING)`. -/
  sporkBlockFiltering : Bool := true
  /-- `GetSporkValue(SPORK_3_MAX_VALUE)`. -/
  sporkMaxValue : Int := 1000
  /-- `masternodeSync.IsBlockchainSynced()`. -/
  blockchainSynced : Bool := true
  /-- `GetTime()`. -/
  time : Int
  /-- `chainActive.Height()`, -1 without a tip. -/
  chainHeight : Int
  /-- `nHeight` of the coins that `AccessCoins` finds over mempool and `pcoinsTip`. -/
  coinsHeight : UInt256 → Option Int
  /-- `GetTransaction` with `fAllowSlow`. -/
  getTransaction : UInt256 → Option CTransaction
  /-- Every check of `AcceptToMemoryPool` besides its scan of the locks. -/
  mempoolAccepts : CTransaction → Bool
  /-- `mnodeman.GetMasternodeRank` for `MIN_SWIFTTX_PROTO_VERSION`, -1 for an unknown one. -/
  getMasternodeRank : CTxIn → Int → Int
  /-- The `pubKeyMasternode` of `mnodeman.Find`. -/
  find : CTxIn → Option (List UInt8)
  /-- `obfuScationSigner.VerifyMessage` of key, signature and message. -/
  verifyMessage : List UInt8 → List UInt8 → String → Bool
  /-- `activeMasternode.vin` where `fMasterNode` is set. -/
  activeMasternode : Option CTxIn := none
  /-- The signature of `CConsensusVote::Sign`, where it succeeds. -/
  sign : String → Option (List UInt8) := fun _ => none

/-! ## Requests -/

/-- The test `ProcessMessageSwiftTX` makes before it reads a message
(`swifttx.cpp:46-48`). -/
def SwiftTXEnv.handlesMessages (env : SwiftTXEnv) : Bool :=
  !env.fLiteMode && env.sporkSwiftTX && env.blockchainSynced

/-- `GetInputAge` (`main.cpp:869-886`). -/
def getInputAge (env : SwiftTXEnv) (vin : CTxIn) : Int :=
  match env.coinsHeight vin.prevout.hash with
  | some nHeight => if nHeight < 0 then 0 else env.chainHeight + 1 - nHeight
  | none => -1

/-- The input loop of `IsIXTXValid` (`swifttx.cpp:181-191`): the value of the inputs found, in 64
bits, and whether a transaction was missing. -/
def ixValueIn (env : SwiftTXEnv) : List CTxIn → Int × Bool
  | [] => (0, false)
  | i :: vin =>
    let (nValueIn, missingTx) := ixValueIn env vin
    match env.getTransaction i.prevout.hash with
    | some tx2 =>
        ((nValueIn + ((tx2.vout[i.prevout.n.toNat]?).map CTxOut.nValue).getD 0).bmod (2 ^ 64),
          missingTx)
    | none => (nValueIn, true)

/-- `IsIXTXValid` (`swifttx.cpp:169-222`). The amounts of the message are not checked before, so
sums and differences of 64 bits wrap. -/
def isIXTXValid (env : SwiftTXEnv) (txCollateral : CTransaction) : Bool :=
  if txCollateral.vout.length < 1 then false
  else if txCollateral.nLockTime ≠ 0 then false
  else
    let nValueOut := (txCollateral.vout.map CTxOut.nValue).sum.bmod (2 ^ 64)
    let (nValueIn, missingTx) := ixValueIn env txCollateral.vin
    let fee := (nValueIn - nValueOut).bmod (2 ^ 64)
    if nValueOut > (env.sporkMaxValue * COIN).bmod (2 ^ 64) then false
    else if missingTx then true
    else if activeProtocol env.chainHeight ≥ CONSENSUS_FORK_PROTO then !decide (fee < MIN_SWIFTTX_FEE)
    else !decide (fee < CENT)

/-- The output loop of the `ix` handler (`swifttx.cpp:67-74`). -/
def ixScriptsValid (tx : CTransaction) : Bool :=
  tx.vout.all (fun o =>
    CScript.isNormalPaymentScript o.scriptPubKey || CScript.isUnspendable o.scriptPubKey)

/-- The loop of `CreateNewLock` over the inputs in reverse, ending with the age of the
first input; `none` if one is too new (`swifttx.cpp:226-234`). -/
def lockAge (env : SwiftTXEnv) (nTxAge : Int) : List CTxIn → Option Int
  | [] => some nTxAge
  | i :: vin => if getInputAge env i < 5 then none else lockAge env (getInputAge env i) vin

/-- The block height `CreateNewLock` computes, `none` if an input is too new
(`swifttx.cpp:226-241`). -/
def lockHeight (env : SwiftTXEnv) (tx : CTransaction) : Option Int :=
  (lockAge env 0 tx.vin.reverse).map (fun nTxAge => env.chainHeight - nTxAge + 4)

/-- `CreateNewLock` (`swifttx.cpp:224-259`). -/
def createNewLock (env : SwiftTXEnv) (s : SwiftTXState) (tx : CTransaction) :
    SwiftTXState × Int :=
  match lockHeight env tx with
  | none => (s, 0)
  | some nBlockHeight =>
    match s.mapTxLocks.lookup tx.getHash with
    | none =>
        let newLock : CTransactionLock :=
          { nBlockHeight, txHash := tx.getHash, vecConsensusVotes := []
            nExpiration := env.time + 60 * 60, nTimeout := env.time + 60 * 5 }
        ({ s with mapTxLocks := s.mapTxLocks.insert tx.getHash newLock }, nBlockHeight)
    | some lock =>
        ({ s with mapTxLocks := s.mapTxLocks.insert tx.getHash { lock with nBlockHeight } },
          nBlockHeight)

/-! ## Votes -/

/-- `strMessage` of `SignatureValid` and `Sign` (`swifttx.cpp:470`, `:495`). -/
def CConsensusVote.strMessage (vote : CConsensusVote) : String :=
  vote.txHash.toHex ++ toString vote.nBlockHeight

/-- `CConsensusVote::SignatureValid` (`swifttx.cpp:467-486`). -/
def signatureValid (env : SwiftTXEnv) (vote : CConsensusVote) : Bool :=
  match env.find vote.vinMasternode with
  | none => false
  | some pubKey => env.verifyMessage pubKey vote.vchMasterNodeSignature vote.strMessage

/-- `DoConsensusVote` (`swifttx.cpp:261-299`); the vote is stored without a look at what
`mapTxLockVote` holds, and is not added to the lock. -/
def ownVote (env : SwiftTXEnv) (tx : CTransaction) (nBlockHeight : Int) :
    Option CConsensusVote :=
  match env.activeMasternode with
  | none => none
  | some vin =>
    let n := env.getMasternodeRank vin nBlockHeight
    if n = -1 then none
    else if n > SWIFTTX_SIGNATURES_TOTAL then none
    else
      let ctx : CConsensusVote := ⟨vin, tx.getHash, nBlockHeight, []⟩
      match env.sign ctx.strMessage with
      | none => none
      | some vchSig =>
        let ctx := { ctx with vchMasterNodeSignature := vchSig }
        if signatureValid env ctx then some ctx else none

@[inherit_doc ownVote]
def doConsensusVote (env : SwiftTXEnv) (s : SwiftTXState) (tx : CTransaction)
    (nBlockHeight : Int) : SwiftTXState :=
  match ownVote env tx nBlockHeight with
  | none => s
  | some ctx =>
    { s with mapTxLockVote := s.mapTxLockVote.insert ctx.getHash ctx }.emit
      (.relayTxLockVote ctx.getHash)

/-- The first input of `tx` locked by another transaction: the scan that `CheckBlock`,
`AcceptToMemoryPool` and `CheckForConflictingLocks` share. -/
def findConflict (mapLockedInputs : AssocMap COutPoint UInt256) (tx : CTransaction) :
    Option UInt256 :=
  tx.vin.findSome? (fun txin =>
    match mapLockedInputs.lookup txin.prevout with
    | some hash => if hash ≠ tx.getHash then some hash else none
    | none => none)

/-- Let the lock of `hash`, if there is one, expire now. -/
def expireLock (env : SwiftTXEnv) (s : SwiftTXState) (hash : UInt256) : SwiftTXState :=
  { s with mapTxLocks :=
      s.mapTxLocks.modify hash (fun lock => { lock with nExpiration := env.time }) }

/-- `CheckForConflictingLocks` (`swifttx.cpp:395-419`): the first conflict found lets both
locks expire. -/
def checkForConflictingLocks (env : SwiftTXEnv) (s : SwiftTXState) (tx : CTransaction) :
    SwiftTXState × Bool :=
  match findConflict s.mapLockedInputs tx with
  | some hash => (expireLock env (expireLock env s tx.getHash) hash, true)
  | none => (s, false)

/-- The checks of `ProcessConsensusVote` before it counts the vote
(`swifttx.cpp:304-329`). -/
def voteValid (env : SwiftTXEnv) (ctx : CConsensusVote) : Bool :=
  let n := env.getMasternodeRank ctx.vinMasternode ctx.nBlockHeight
  !decide (n = -1) && !decide (n > SWIFTTX_SIGNATURES_TOTAL) && signatureValid env ctx

/-- The lock `ProcessConsensusVote` makes for a vote that comes before its request
(`swifttx.cpp:334-339`). -/
def voteLock (env : SwiftTXEnv) (txHash : UInt256) : CTransactionLock where
  nBlockHeight := 0
  txHash := txHash
  vecConsensusVotes := []
  nExpiration := env.time + 60 * 60
  nTimeout := env.time + 60 * 5

/-- `ProcessConsensusVote` once the lock is complete (`swifttx.cpp:357-384`). The
`operator[]` leaves an empty request where there was none. -/
def lockComplete (env : SwiftTXEnv) (s : SwiftTXState) (txHash : UInt256) : SwiftTXState :=
  let tx := (s.mapTxLockReq.lookup txHash).getD CTransaction.empty
  let s := { s with mapTxLockReq := s.mapTxLockReq.insertNew txHash CTransaction.empty }
  let (s, conflict) := checkForConflictingLocks env s tx
  if conflict then s
  else
    let s := { s with
      mapLockedInputs := s.mapLockedInputs.insertNewAll tx.prevouts txHash }
    if s.mapTxLockReqRejected.contains txHash then s.emit (.reprocessBlocks 15) else s

/-- The lock behind a vote for it. -/
def lockWithVote (env : SwiftTXEnv) (s : SwiftTXState) (ctx : CConsensusVote) :
    CTransactionLock :=
  ((s.mapTxLocks.lookup ctx.txHash).getD (voteLock env ctx.txHash)).addSignature ctx

/-- `ProcessConsensusVote` on a vote that passed the checks (`swifttx.cpp:331-387`). -/
def countVote (env : SwiftTXEnv) (s : SwiftTXState) (ctx : CConsensusVote) : SwiftTXState :=
  let lock := lockWithVote env s ctx
  let s := { s with mapTxLocks := s.mapTxLocks.insert ctx.txHash lock }
  if lock.isComplete then lockComplete env s ctx.txHash else s

/-- `ProcessConsensusVote` (`swifttx.cpp:302-391`). -/
def processConsensusVote (env : SwiftTXEnv) (s : SwiftTXState) (ctx : CConsensusVote) :
    SwiftTXState × Bool :=
  let n := env.getMasternodeRank ctx.vinMasternode ctx.nBlockHeight
  if n = -1 then (s.emit (.askForMN ctx.vinMasternode), false)
  else if n > SWIFTTX_SIGNATURES_TOTAL then (s, false)
  else if !signatureValid env ctx then (s.emit (.askForMN ctx.vinMasternode), false)
  else (countVote env s ctx, true)

/-- `GetAverageVoteTime` (`swifttx.cpp:421-434`). -/
def getAverageVoteTime (mapUnknownVotes : AssocMap UInt256 Int) : Int :=
  (mapUnknownVotes.entries.map Sigma.snd).sum.tdiv mapUnknownVotes.entries.length

/-- The spam protection of the `txlvote` handler, then `RelayInv`
(`swifttx.cpp:146-163`). -/
def relayVote (env : SwiftTXEnv) (s : SwiftTXState) (ctx : CConsensusVote) : SwiftTXState :=
  if s.mapTxLockReq.contains ctx.txHash || s.mapTxLockReqRejected.contains ctx.txHash then
    s.emit (.relayTxLockVote ctx.getHash)
  else
    let masternode := ctx.vinMasternode.prevout.hash
    let unknown := s.mapUnknownVotes.insertNew masternode (env.time + 60 * 10)
    let s := { s with mapUnknownVotes := unknown }
    let allowed := (unknown.lookup masternode).getD 0
    if allowed > env.time ∧ allowed - getAverageVoteTime unknown > 60 * 10 then s
    else
      { s with mapUnknownVotes := unknown.insert masternode (env.time + 60 * 10) }.emit
        (.relayTxLockVote ctx.getHash)

/-! ## The message handlers -/

/-- `strCommand == "txlvote"` (`swifttx.cpp:126-166`): the vote is stored before it is
checked. -/
def txlvote (env : SwiftTXEnv) (s : SwiftTXState) (ctx : CConsensusVote) : SwiftTXState :=
  if !env.handlesMessages then s
  else if s.mapTxLockVote.contains ctx.getHash then s
  else
    let s := { s with mapTxLockVote := s.mapTxLockVote.insert ctx.getHash ctx }
    let (s, processed) := processConsensusVote env s ctx
    if processed then relayVote env s ctx else s

/-- The lock scan of `AcceptToMemoryPool` (`main.cpp:1169-1177`). -/
def acceptLockScan (s : SwiftTXState) (tx : CTransaction) : Option Rejection :=
  (findConflict s.mapLockedInputs tx).map (fun _ => ⟨0, REJECT_INVALID, "tx-lock-conflict", false⟩)

/-- The verdict of `AcceptToMemoryPool` for a transaction with these locks in place. -/
def acceptToMemoryPool (env : SwiftTXEnv) (s : SwiftTXState) (tx : CTransaction) : Bool :=
  (acceptLockScan s tx).isNone && env.mempoolAccepts tx

/-- The lock scan of `CheckBlock` (`main.cpp:3257-3273`). -/
def checkBlockLockScan (env : SwiftTXEnv) (s : SwiftTXState) (block : CBlock) :
    Option Rejection :=
  if env.sporkBlockFiltering then
    block.vtx.findSome? (fun tx =>
      if tx.isCoinBase then none
      else
        (findConflict s.mapLockedInputs tx).map fun _ =>
          ⟨0, REJECT_INVALID, "conflicting-tx-ix", false⟩)
  else none

/-- `CheckBlock` as far as it reads and writes the lock tables. -/
def checkBlock (env : SwiftTXEnv) (s : SwiftTXState) (block : CBlock) : SwiftTXState :=
  match checkBlockLockScan env s block with
  | some _ =>
    { s with mapRejectedBlocks := s.mapRejectedBlocks.insertNew block.getHash env.time }
  | none => s

/-- Does the `ix` handler take up `tx` (`swifttx.cpp:46-74`)? -/
def ixTakenUp (env : SwiftTXEnv) (s : SwiftTXState) (tx : CTransaction) : Bool :=
  env.handlesMessages &&
    !(s.mapTxLockReq.contains tx.getHash || s.mapTxLockReqRejected.contains tx.getHash) &&
    isIXTXValid env tx && ixScriptsValid tx

/-- The `ix` handler on a transaction the mempool accepted (`swifttx.cpp:85-96`). -/
def ixAccepted (env : SwiftTXEnv) (s : SwiftTXState) (tx : CTransaction) (nBlockHeight : Int) :
    SwiftTXState :=
  let s := doConsensusVote env (s.emit (.relayTxLockRequest tx.getHash)) tx nBlockHeight
  { s with mapTxLockReq := s.mapTxLockReq.insertNew tx.getHash tx }

/-- The `ix` handler on a transaction the mempool rejected (`swifttx.cpp:98-124`): its
inputs are locked for it first, and the state of its lock is looked at afterwards. -/
def ixRejected (env : SwiftTXEnv) (s : SwiftTXState) (tx : CTransaction) : SwiftTXState :=
  let s := { s with
    mapTxLockReqRejected := s.mapTxLockReqRejected.insertNew tx.getHash tx
    mapLockedInputs := s.mapLockedInputs.insertNewAll tx.prevouts tx.getHash }
  match s.mapTxLocks.lookup tx.getHash with
  | none => s
  | some lock =>
    if lock.isComplete then
      let (s, conflict) := checkForConflictingLocks env s tx
      if conflict then s
      else
        let s := s.emit (.reprocessBlocks 15)
        { s with mapTxLockReq := s.mapTxLockReq.insertNew tx.getHash tx }
    else s

/-- `strCommand == "ix"` (`swifttx.cpp:50-125`). -/
def ix (env : SwiftTXEnv) (s : SwiftTXState) (tx : CTransaction) : SwiftTXState :=
  if ixTakenUp env s tx then
    let (s, nBlockHeight) := createNewLock env s tx
    if acceptToMemoryPool env s tx then ixAccepted env s tx nBlockHeight
    else ixRejected env s tx
  else s

/-- The node's own lock request (`wallet.cpp:1173-1176`, `rpcrawtransaction.cpp:734-737`). -/
def relayTransactionLockReq (env : SwiftTXEnv) (s : SwiftTXState) (tx : CTransaction) :
    SwiftTXState :=
  let s := { s with mapTxLockReq := s.mapTxLockReq.insertNew tx.getHash tx }
  (createNewLock env s tx).1.emit (.relayTxLockRequest tx.getHash)

/-- One round of the loop of `CleanTransactionLocksList` (`swifttx.cpp:443-463`). -/
def cleanLock (env : SwiftTXEnv) (s : SwiftTXState) (key : UInt256) (lock : CTransactionLock) :
    SwiftTXState :=
  if env.time > lock.nExpiration then
    let s := match s.mapTxLockReq.lookup lock.txHash with
      | none => s
      | some tx =>
        { s with
          mapLockedInputs := s.mapLockedInputs.eraseAll tx.prevouts
          mapTxLockReq := s.mapTxLockReq.erase lock.txHash
          mapTxLockReqRejected := s.mapTxLockReqRejected.erase lock.txHash
          mapTxLockVote :=
            s.mapTxLockVote.eraseAll (lock.vecConsensusVotes.map CConsensusVote.getHash) }
    { s with mapTxLocks := s.mapTxLocks.erase key }
  else s

/-- `CleanTransactionLocksList` (`swifttx.cpp:436-467`). -/
def cleanTransactionLocksList (env : SwiftTXEnv) (s : SwiftTXState) : SwiftTXState :=
  if env.chainHeight < 0 then s
  else s.mapTxLocks.entries.foldl (fun s entry => cleanLock env s entry.1 entry.2) s

/-- What can happen to the lock tables. -/
inductive SwiftTXAction where
  | ix (env : SwiftTXEnv) (tx : CTransaction)
  | txlvote (env : SwiftTXEnv) (ctx : CConsensusVote)
  | relayTransactionLockReq (env : SwiftTXEnv) (tx : CTransaction)
  | cleanTransactionLocksList (env : SwiftTXEnv)
  | checkBlock (env : SwiftTXEnv) (block : CBlock)

/-- A step of the lock tables. -/
def swiftTXStep (s : SwiftTXState) : SwiftTXAction → SwiftTXState
  | .ix env tx => ix env s tx
  | .txlvote env ctx => txlvote env s ctx
  | .relayTransactionLockReq env tx => relayTransactionLockReq env s tx
  | .cleanTransactionLocksList env => cleanTransactionLocksList env s
  | .checkBlock env block => checkBlock env s block

end Esbcoin.SwiftTX
