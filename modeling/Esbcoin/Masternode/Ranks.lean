import Esbcoin.Compact
import Esbcoin.Lib.Arrange
import Esbcoin.Lib.Binary64
import Esbcoin.Masternode.BlockHash
import Esbcoin.Masternode.Payments

/-!
# Ranks and the payment queue

`CMasternodeMan::GetMasternodeRank`, `GetMasternodeByRank` and
`GetNextMasternodeInQueueForPayment` (`src/masternodeman.cpp`), with what they read of
`CMasternode` and `CMasternodePayments`. `std::sort` compares the first components only and says
nothing about equal ones; here it is a `Sorter`, which sees the keys alone.
-/

namespace Esbcoin

open Arrange Payments Binary64

/-- `CMasternodeMan::vMasternodes`. `CMasternodeMan::Add` takes no input twice
(`masternodeman.cpp:221-234`). -/
structure MasternodeList where
  vMasternodes : List CMasternode
  distinct : (vMasternodes.map (fun mn => mn.vin.prevout)).Nodup

/-- What ranks and the queue read of the rest of the node. -/
structure RanksEnv where
  /-- The hash of `CalculateScore`. -/
  sha : WordsHash
  /-- The hash of an input and a time (`masternode.cpp:248-251`, `:268-271`). -/
  paidSha : CTxIn → Int → UInt256
  chain : LinkedChain
  mapCacheBlockHashes : AssocMap Int UInt256
  /-- `GetAdjustedTime()`. -/
  adjustedTime : Int
  /-- `IsSporkActive(SPORK_4_MASTERNODE_PAYMENT_ENFORCEMENT)`. -/
  paymentEnforcement : Bool
  /-- `GetSporkValue(SPORK_6_MN_WINNER_MINIMUM_AGE)`. -/
  winnerMinimumAge : Int
  /-- Does `TRY_LOCK(cs_main)` get the lock? -/
  locked : Bool
  /-- `GetInputAge` (`main.cpp:869-886`). -/
  getInputAge : CTxIn → Int
  /-- `cacheInputAge` and `cacheInputAgeBlock` of the masternode with this input. -/
  cachedInputAge : COutPoint → Int × Int
  payments : CMasternodePayments
  sorter : Sorter

namespace RanksEnv

variable (env : RanksEnv)

/-- The height of the active chain. -/
def chainHeight : Int := env.chain.chainActive.height

/-- `CMasternode::CalculateScore` (`masternode.cpp:155-179`). -/
def score (mn : CMasternode) (nBlockHeight : Int) : UInt256 :=
  (calculateScore env.sha env.chain env.mapCacheBlockHashes mn nBlockHeight).1

end RanksEnv

/-! ## Ranks -/

section Ranks

variable (env : RanksEnv)

/-- The score of a masternode as ranks compare it (`masternodeman.cpp:805-806`). -/
def compactScore (nBlockHeight : Int) (mn : CMasternode) : Int :=
  (getCompact (env.score mn nBlockHeight) false).toNat

/-- The element of `vecMasternodeScores` for a masternode (`masternodeman.cpp:808`). -/
def scoreEntry (nBlockHeight : Int) (mn : CMasternode) : Int × CTxIn :=
  (compactScore env nBlockHeight mn, mn.vin)

/-- The masternodes that `GetMasternodeRank` scores (`masternodeman.cpp:779-803`). -/
def isRanked (minProtocol : Int) (fOnlyActive : Bool) (mn : CMasternode) : Bool :=
  !decide (mn.protocolVersion < minProtocol) &&
    !(env.paymentEnforcement && decide (env.adjustedTime - mn.sigTime < env.winnerMinimumAge)) &&
    !(fOnlyActive && !mn.isEnabled)

/-- The last loop of `GetMasternodeRank` (`masternodeman.cpp:813-821`). -/
def rankOf (vin : CTxIn) : Int → List (Int × CTxIn) → Int
  | _, [] => -1
  | rank, s :: rest =>
    if s.2.prevout = vin.prevout then rank + 1 else rankOf vin (rank + 1) rest

/-- `CMasternodeMan::GetMasternodeRank` (`masternodeman.cpp:767-822`). -/
def getMasternodeRank (mns : MasternodeList) (vin : CTxIn) (nBlockHeight minProtocol : Int)
    (fOnlyActive : Bool) : Int :=
  match (getBlockHash env.chain env.mapCacheBlockHashes nBlockHeight).1 with
  | none => -1
  | some _ =>
    let vecMasternodeScores := (mns.vMasternodes.filter (isRanked env minProtocol fOnlyActive)).map
      (scoreEntry env nBlockHeight)
    rankOf vin 0 (env.sorter.sort Prod.fst vecMasternodeScores)

/-- The masternodes that `GetMasternodeByRank` scores (`masternodeman.cpp:867-871`): their age
is not asked for. -/
def isRankedBy (minProtocol : Int) (fOnlyActive : Bool) (mn : CMasternode) : Bool :=
  !decide (mn.protocolVersion < minProtocol) && !(fOnlyActive && !mn.isEnabled)

/-- The last loop of `GetMasternodeByRank` (`masternodeman.cpp:881-889`). -/
def atRank (vMasternodes : List CMasternode) (nRank : Int) :
    Int → List (Int × CTxIn) → Option CMasternode
  | _, [] => none
  | rank, s :: rest =>
    if rank + 1 = nRank then findVin vMasternodes s.2
    else atRank vMasternodes nRank (rank + 1) rest

/-- `CMasternodeMan::GetMasternodeByRank` (`masternodeman.cpp:861-890`). -/
def getMasternodeByRank (mns : MasternodeList) (nRank nBlockHeight minProtocol : Int)
    (fOnlyActive : Bool) : Option CMasternode :=
  let vecMasternodeScores := (mns.vMasternodes.filter (isRankedBy minProtocol fOnlyActive)).map
    (scoreEntry env nBlockHeight)
  atRank mns.vMasternodes nRank 0 (env.sorter.sort Prod.fst vecMasternodeScores)

end Ranks

/-! ## The payment queue -/

/-- One turn of the loop of `GetPayee` (`masternode-payments.h:99-106`). -/
def preferPayee (mnlevel : Nat) (payment : Option CMasternodePayee) (p : CMasternodePayee) :
    Option CMasternodePayee :=
  if p.mnlevel ≠ mnlevel then payment
  else
    match payment with
    | none => some p
    | some best => if p.nVotes > best.nVotes then some p else some best

/-- `CMasternodeBlockPayees::GetPayee` (`masternode-payments.h:93-114`): of the payees of a level
the first with the most votes. -/
def Payments.CMasternodeBlockPayees.getPayee (block : CMasternodeBlockPayees) (mnlevel : Nat) :
    Option CScript :=
  (block.vecPayments.foldl (preferPayee mnlevel) none).map CMasternodePayee.scriptPubKey

/-- `CMasternodeBlockPayees::HasPayeeWithVotes` (`masternode-payments.h:116-125`). -/
def Payments.CMasternodeBlockPayees.hasPayeeWithVotes (block : CMasternodeBlockPayees)
    (payee : CScript) (nVotesReq : Int) : Bool :=
  block.vecPayments.any (fun p => decide (p.nVotes ≥ nVotesReq) && p.scriptPubKey == payee)

section Queue

variable (env : RanksEnv) (vMasternodes : List CMasternode)

/-- `CMasternodePayments::IsScheduled` (`masternode-payments.cpp:346-387`). -/
def isScheduled (mn : CMasternode) (nSameLevelMNCount : Nat) (nNotBlockHeight : Int) : Bool :=
  match env.chain.tip with
  | none => false
  | some chain_tip =>
    let h_upper_bound := chain_tip.nHeight + 10
    let n := (min 10 ((nSameLevelMNCount : Int) - 1)).toNat
    env.locked && (List.range n).any (fun i =>
      let h := h_upper_bound - n + i
      h != nNotBlockHeight && match env.payments.mapMasternodeBlocks.lookup h with
        | none => false
        | some block_payees => block_payees.getPayee (mn.level env.chainHeight) == some mn.payee)

/-- The loop of `GetLastPaid` back from `BlockReading`, at most `n` blocks
(`masternode.cpp:276-300`). -/
def readPaid (mnpayee : CScript) (nOffset : Int) : Nat → Option CBlockIndex → Int
  | n + 1, some BlockReading =>
    if BlockReading.nHeight > 0 then
      if (env.payments.mapMasternodeBlocks.lookup BlockReading.nHeight).any
          (fun block => block.hasPayeeWithVotes mnpayee 6) then
        BlockReading.getBlockTime - nOffset
      else readPaid mnpayee nOffset n (env.chain.mapBlockIndex.deref BlockReading.pprev)
    else 0
  | _, _ => 0

/-- `CMasternode::GetLastPaid` (`masternode.cpp:258-301`). -/
def getLastPaid (mn : CMasternode) : Int :=
  match env.chain.tip with
  | none => 0
  | some pindexPrev =>
    let nOffset := (getCompact (env.paidSha mn.vin mn.sigTime) false).toNat % 90
    let nMnCount := fiveQuarters (countEnabled vMasternodes (mn.level env.chainHeight)
      (activeProtocol env.chainHeight) env.chainHeight)
    readPaid env mn.payee nOffset nMnCount.toNat (some pindexPrev)

/-- `CMasternode::SecondsSincePayment` (`masternode.cpp:239-255`). -/
def secondsSincePayment (mn : CMasternode) : Int :=
  let sec := env.adjustedTime - getLastPaid env vMasternodes mn
  let month := 60 * 60 * 24 * 30
  if sec < month then sec
  else month + (getCompact (env.paidSha mn.vin mn.sigTime) false).toNat

/-- `CMasternode::GetMasternodeInputAge` (`masternode.h:252-265`). -/
def getMasternodeInputAge (mn : CMasternode) : Int :=
  match env.chain.tip with
  | none => 0
  | some chain_tip =>
    let (cacheInputAge, cacheInputAgeBlock) := env.cachedInputAge mn.vin.prevout
    if cacheInputAge = 0 then env.getInputAge mn.vin
    else cacheInputAge + (chain_tip.nHeight - cacheInputAgeBlock)

/-- Is a masternode too new for a queue of `nMnCount` (`masternodeman.cpp:645`)? The source
computes in doubles. -/
def isTooNew (nMnCount : Nat) (mn : CMasternode) : Bool :=
  let cycle := mul (mul nMnCount (nearest (26 / 10))) 60
  decide (add (nearest mn.sigTime) cycle > nearest env.adjustedTime)

/-- The masternodes that `GetNextMasternodeInQueueForPayment` looks at
(`masternodeman.cpp:632-654`). -/
def isQueued (nBlockHeight : Int) (mnlevel : Nat) (fFilterSigTime : Bool) (nMnCount : Nat)
    (mn : CMasternode) : Bool :=
  mn.level env.chainHeight == mnlevel &&
    !decide (mn.protocolVersion < activeProtocol env.chainHeight) && mn.isEnabled &&
    !(fFilterSigTime && isTooNew env nMnCount mn) &&
    !decide (getMasternodeInputAge env mn < nMnCount) &&
    !isScheduled env mn nMnCount nBlockHeight

/-- The element of `vecMasternodeLastPaid` for a masternode (`masternodeman.cpp:656`). -/
def paidEntry (mn : CMasternode) : Int × CTxIn :=
  (secondsSincePayment env vMasternodes mn, mn.vin)

/-- The loop over the oldest masternodes (`masternodeman.cpp:679-697`). -/
def payBest (nBlockHeight : Int) :
    Int → UInt256 → Option CMasternode → List (Int × CTxIn) → Option CMasternode
  | _, _, pBestMasternode, [] => pBestMasternode
  | nCountTenth, nHigh, pBestMasternode, s :: rest =>
    match findVin vMasternodes s.2 with
    | none => payBest nBlockHeight nCountTenth nHigh pBestMasternode rest
    | some pmn =>
      let n := env.score pmn (nBlockHeight - 100)
      let (nHigh, pBestMasternode) := if n > nHigh then (n, some pmn) else (nHigh, pBestMasternode)
      if nCountTenth - 1 ≤ 0 then pBestMasternode
      else payBest nBlockHeight (nCountTenth - 1) nHigh pBestMasternode rest

end Queue

section Next

variable (env : RanksEnv) (mns : MasternodeList)

/-- `nMnCount` (`masternodeman.cpp:628`). -/
def queueCount (mnlevel : Nat) : Nat :=
  countEnabled mns.vMasternodes mnlevel (activeProtocol env.chainHeight) env.chainHeight

/-- The masternodes of `vecMasternodeLastPaid` (`masternodeman.cpp:630-657`). -/
def queuedMasternodes (nBlockHeight : Int) (mnlevel : Nat) (fFilterSigTime : Bool) :
    List CMasternode :=
  mns.vMasternodes.filter
    (isQueued env nBlockHeight mnlevel fFilterSigTime (queueCount env mns mnlevel))

/-- Is `fFilterSigTime` kept (`masternodeman.cpp:664-665`)? It is dropped where it leaves fewer
than a third. -/
def keepsFilter (nBlockHeight : Int) (mnlevel : Nat) (fFilterSigTime : Bool) : Bool :=
  fFilterSigTime && !decide ((queuedMasternodes env mns nBlockHeight mnlevel fFilterSigTime).length <
    queueCount env mns mnlevel / 3)

/-- `CMasternodeMan::GetNextMasternodeInQueueForPayment` (`masternodeman.cpp:618-698`): the
masternode, and `nCount`. The call with `fFilterSigTime` dropped is the same body again. -/
def getNextMasternodeInQueueForPayment (nBlockHeight : Int) (mnlevel : Nat)
    (fFilterSigTime : Bool) : Option CMasternode × Nat :=
  let fFilterSigTime := keepsFilter env mns nBlockHeight mnlevel fFilterSigTime
  let vecMasternodeLastPaid :=
    (queuedMasternodes env mns nBlockHeight mnlevel fFilterSigTime).map
      (paidEntry env mns.vMasternodes)
  (payBest env mns.vMasternodes nBlockHeight (queueCount env mns mnlevel / 10 : Nat) 0 none
    (env.sorter.sort Prod.fst vecMasternodeLastPaid), vecMasternodeLastPaid.length)

end Next

end Esbcoin
