import Esbcoin.Chain.Rewards
import Esbcoin.Chain.Shares
import Esbcoin.Destination
import Esbcoin.Masternode.Ranks

/-!
# Masternode payments of a block

The producer of a coinstake (`CWallet::CreateCoinStake`, `src/wallet.cpp:2337-2494`, with
`CMasternodePayments::FillBlockPayee`) and its validators (`CMasternodeBlockPayees::
IsTransactionValid` and `IsBlockValueValid`, `src/masternode-payments.cpp`).
-/

namespace Esbcoin

open Payments

/-- `CENT` (`amount.h:17`). -/
def CENT : Int := 1000000

/-- `Params().DevFeeAddress(fNew)` (`chainparams.cpp:183-184`, `:259`), decoded. Networks derived
from the test network inherit an old address that is none there. -/
def devFeeAddress (params : CChainParams) (fNew : Bool) : Option CTxDestination :=
  match params.networkID, fNew with
  | .main, false | .unittest, false =>
    some (.keyID [0x7e, 0xcb, 0x49, 0xeb, 0x04, 0x1a, 0x93, 0x6a, 0x70, 0xc5, 0x14, 0x42, 0x5d,
      0x21, 0x39, 0xaf, 0x7a, 0x18, 0x04, 0xc1])
  | .main, true | .unittest, true =>
    some (.keyID [0x9f, 0xb5, 0x26, 0xf5, 0xd4, 0x80, 0x50, 0xc8, 0x1c, 0x33, 0x96, 0xe8, 0xb6,
      0x73, 0xfb, 0x4b, 0x87, 0xfc, 0xc4, 0x7c])
  | .testnet, false | .regtest, false => none
  | .testnet, true | .regtest, true =>
    some (.keyID [0x6c, 0xe6, 0xc9, 0x94, 0xab, 0x4c, 0xcb, 0xfb, 0x0f, 0xce, 0x6f, 0x6b, 0x99,
      0x54, 0xe5, 0xb2, 0x75, 0x64, 0xe8, 0x5f])

/-- A node that has a tip, with what the payments of a block depend on. -/
structure RewardEnv extends RanksEnv where
  mns : MasternodeList
  params : CChainParams
  /-- `GetSporkValue(SPORK_11_DEV_FEE)`. -/
  devFee : Int
  /-- `Hash160`. -/
  hash160 : List UInt8 → List UInt8
  hasTip : chain.tip.isSome = true
  /-- The payees of a height are constructed with it (`masternode-payments.cpp:427`). -/
  filed : ∀ nBlockHeight block, payments.mapMasternodeBlocks.lookup nBlockHeight = some block →
    block.nBlockHeight = nBlockHeight

namespace RewardEnv

variable (env : RewardEnv)

/-- `GetBlockValue` of the node. -/
def blockValue (nHeight : Int) : Option Int :=
  getBlockValue env.params env.chain.mapBlockIndex env.chain.chainActive nHeight

/-- `GetDevFeeValue` of the node. -/
def devFeeValue (nHeight : Int) : Option Int :=
  getDevFeeValue env.params env.chain.mapBlockIndex env.chain.chainActive nHeight

/-- `GetMasternodePayment` of the node. -/
def masternodePayment (mnlevel : Nat) (blockValue : Int) : Int :=
  getMasternodePayment (activeProtocol env.chainHeight) mnlevel blockValue

/-- The tip is above the reward update. -/
def pastUpdate : Bool := decide (env.chainHeight > CONSENSUS_FORK_REWARD_UPDATE_BLOCK)

/-- The script of the dev fee (`wallet.cpp:2463-2464`, `:2475-2476`). -/
def devFeeScript : CScript := getScriptForDestination (devFeeAddress env.params env.pastUpdate)

/-- Does an output pay to the dev-fee address (`masternode-payments.cpp:469-470`, `:486-487`)?
A string that is no address equals none. -/
def paysDevFee (out : CTxOut) : Bool :=
  match devFeeAddress env.params env.pastUpdate with
  | none => false
  | some address => extractDestination env.hash160 out.scriptPubKey == some address

theorem devFeeAddress_cases {params : CChainParams} {fNew : Bool} {address : CTxDestination}
    (found : devFeeAddress params fNew = some address) :
    ∃ hash, hash.length = 20 ∧ address = .keyID hash := by
  unfold devFeeAddress at found
  split at found
  · exact ⟨_, rfl, (Option.some.inj found).symm⟩
  · exact ⟨_, rfl, (Option.some.inj found).symm⟩
  · exact ⟨_, rfl, (Option.some.inj found).symm⟩
  · exact ⟨_, rfl, (Option.some.inj found).symm⟩
  · cases found
  · cases found
  · exact ⟨_, rfl, (Option.some.inj found).symm⟩
  · exact ⟨_, rfl, (Option.some.inj found).symm⟩

theorem paysDevFee_devFeeScript {address : CTxDestination}
    (found : devFeeAddress env.params env.pastUpdate = some address) (nValue : Int) :
    env.paysDevFee ⟨nValue, env.devFeeScript⟩ = true := by
  obtain ⟨hash, size, rfl⟩ := devFeeAddress_cases found
  unfold paysDevFee devFeeScript
  rw [found]
  simp only [extractDestination_keyID env.hash160 size, beq_self_eq_true]

/-- The dev fee of spork 11, up to ten percent, of a reward (`wallet.cpp:2472-2473`,
`masternode-payments.cpp:481-482`). -/
def sporkDevFee (reward : Int) : Int := (reward * min env.devFee 10).tdiv 100

end RewardEnv

/-! ## The validator -/

section Validator

/-- One turn of the loop that selects signatures (`masternode-payments.cpp:443-455`). -/
def addSignature (max_signatures : AssocMap Nat Int) (payee : CMasternodePayee) :
    AssocMap Nat Int :=
  if payee.nVotes < MNPAYMENTS_SIGNATURES_REQUIRED then max_signatures
  else
    match max_signatures.lookup payee.mnlevel with
    | none => max_signatures.insert payee.mnlevel payee.nVotes
    | some nVotes =>
      if payee.nVotes ≥ nVotes then max_signatures.insert payee.mnlevel payee.nVotes
      else max_signatures

/-- `max_signatures` (`masternode-payments.cpp:439-455`). -/
def selectSignatures (vecPayments : List CMasternodePayee) : AssocMap Nat Int :=
  vecPayments.foldl addSignature ∅

/-- Is a payee paid at least `required` by one output (`masternode-payments.cpp:510-519`)? -/
def isPaid (vout : List CTxOut) (required : Int) (payee : CMasternodePayee) : Bool :=
  vout.any (fun out => payee.scriptPubKey == out.scriptPubKey && decide (out.nValue ≥ required))

/-- The loop over the payees (`masternode-payments.cpp:502-543`). -/
def payeesPaid (vout : List CTxOut) (required : Nat → Int) :
    AssocMap Nat Int → List CMasternodePayee → Bool
  | _, [] => false
  | max_signatures, payee :: rest =>
    if payee.nVotes < MNPAYMENTS_SIGNATURES_REQUIRED then
      payeesPaid vout required max_signatures rest
    else if isPaid vout (required payee.mnlevel) payee then
      let max_signatures : AssocMap Nat Int := max_signatures.erase payee.mnlevel
      if max_signatures.size = 0 then true else payeesPaid vout required max_signatures rest
    else payeesPaid vout required max_signatures rest

variable (env : RewardEnv)

/-- The dev-fee test past the reward update (`masternode-payments.cpp:465-475`); `none` is a read
of `vout[2]` where there is no such output. -/
def refusesDevFee (vout : List CTxOut) (devFeeFund : Int) : Option Bool :=
  if devFeeFund > 0 then
    (vout[2]?).map (fun out => !env.paysDevFee out && out.nValue != devFeeFund)
  else some false

/-- The search for the dev fee before the reward update (`masternode-payments.cpp:484-496`). -/
def findsDevFee (vout : List CTxOut) (devFeeFund : Int) : Bool :=
  (vout.find? env.paysDevFee).any (fun out => decide (out.nValue ≥ devFeeFund))

/-- `CMasternodeBlockPayees::IsTransactionValid` (`masternode-payments.cpp:435-544`); `none` where
it reads what is not there. -/
def Payments.CMasternodeBlockPayees.isTransactionValid (block : CMasternodeBlockPayees)
    (txNew : CTransaction) : Option Bool :=
  let max_signatures := selectSignatures block.vecPayments
  if max_signatures.size = 0 then some true
  else
    (env.blockValue (block.nBlockHeight - 1)).bind fun nReward =>
      if env.pastUpdate then
        (env.devFeeValue (block.nBlockHeight - 1)).bind fun devFeeFund =>
          (refusesDevFee env txNew.vout devFeeFund).map fun refused =>
            !refused && payeesPaid txNew.vout (env.masternodePayment · nReward) max_signatures
              block.vecPayments
      else if env.devFee > 0 then
        let devFeeFund := env.sporkDevFee nReward
        some (findsDevFee env txNew.vout devFeeFund &&
          payeesPaid txNew.vout (env.masternodePayment · (nReward - devFeeFund)) max_signatures
            block.vecPayments)
      else
        some (payeesPaid txNew.vout (env.masternodePayment · nReward) max_signatures
          block.vecPayments)

/-- `CMasternodePayments::IsTransactionValid` (`masternode-payments.cpp:583-592`). -/
def isTransactionValid (txNew : CTransaction) (nBlockHeight : Int) : Option Bool :=
  match env.payments.mapMasternodeBlocks.lookup nBlockHeight with
  | none => some true
  | some block => block.isTransactionValid env txNew

/-- The transaction that pays the masternodes (`masternode-payments.cpp:60`). -/
def payingTransaction (params : CChainParams) (block : CBlock) (nBlockHeight : Int) :
    Option CTransaction :=
  if nBlockHeight > params.lastPOWBlock then block.vtx[1]? else block.vtx[0]?

/-- `IsBlockPayeeValid` (`masternode-payments.cpp:53-74`); `none` where it reads what is not there.
`isSynced` is `masternodeSync.IsSynced()`. -/
def isBlockPayeeValid (isSynced : Bool) (block : CBlock) (nBlockHeight : Int) : Option Bool :=
  if !isSynced then some true
  else
    (payingTransaction env.params block nBlockHeight).bind fun txNew =>
      (isTransactionValid env txNew nBlockHeight).map fun valid =>
        valid || !env.paymentEnforcement

end Validator

/-! ## The producer -/

/-- A transaction of a block besides coinbase and coinstake, as its values. -/
structure FeeTransaction where
  valueIn : Int
  valueOut : Int
  /-- `CheckInputs` takes no transaction that spends more than its inputs. -/
  covered : valueOut ≤ valueIn

/-- What a coinstake is made from: the kernel that was found, the setting of the wallet and the
other transactions of the block. -/
structure Stake where
  scriptPubKeyOut : CScript
  nCredit : Int
  /-- The wallet takes no stake without a value (`wallet.cpp:2453`). -/
  positive : 0 < nCredit
  nStakeSplitThreshold : UInt64
  vtx : List FeeTransaction

/-- `nFees` (`miner.cpp:298`). -/
def Stake.nFees (stake : Stake) : Int :=
  (stake.vtx.map (fun tx => tx.valueIn - tx.valueOut)).sum

section Producer

/-- `CMasternodeMan::GetCurrentMasterNode` (`masternodeman.cpp:736-765`). -/
def getCurrentMasterNode (env : RanksEnv) (vMasternodes : List CMasternode) (mnlevel : Nat)
    (nBlockHeight minProtocol : Int) : Option CMasternode :=
  (vMasternodes.foldl (fun (score, winner) mn =>
    if mnlevel ≠ CMasternode.UNSPECIFIED ∧ mn.level env.chainHeight ≠ mnlevel then (score, winner)
    else if mn.protocolVersion < minProtocol ∨ !mn.isEnabled then (score, winner)
    else
      let n2 := compactScore env nBlockHeight mn
      if n2 > score then (n2, some mn) else (score, winner)) ((0 : Int), none)).2

/-- `CMasternodePayments::GetBlockPayee` (`masternode-payments.cpp:334-342`). -/
def getBlockPayee (payments : CMasternodePayments) (nBlockHeight : Int) (mnlevel : Nat) :
    Option CScript :=
  (payments.mapMasternodeBlocks.lookup nBlockHeight).bind (fun block => block.getPayee mnlevel)

variable (env : RewardEnv)

/-- The payee of a level (`masternode-payments.cpp:92-103`). -/
def levelPayee (mnlevel : Nat) : Option CScript :=
  match getBlockPayee env.payments (env.chainHeight + 1) mnlevel with
  | some payee => some payee
  | none =>
    (getCurrentMasterNode env.toRanksEnv env.mns.vMasternodes mnlevel 0 0).map CMasternode.payee

/-- One turn of the loop of `FillBlockPayee` (`masternode-payments.cpp:90-120`). -/
def fillLevel (block_value : Int) (filled : List CTxOut × Int) (mnlevel : Nat) :
    List CTxOut × Int :=
  match levelPayee env mnlevel with
  | none => filled
  | some payee =>
    let masternodePayment := env.masternodePayment mnlevel block_value
    if masternodePayment = 0 then filled
    else (filled.1 ++ [⟨masternodePayment, payee⟩], filled.2 + masternodePayment)

/-- `CMasternodePayments::FillBlockPayee` (`masternode-payments.cpp:81-124`): the outputs, and
what the masternodes get together. -/
def fillBlockPayee (vout : List CTxOut) (block_value : Int) : List CTxOut × Int :=
  match env.chain.tip with
  | none => (vout, 0)
  | some _ => CMasternode.levels.foldl (fillLevel env block_value) (vout, 0)

/-- The dev-fee output of a coinstake and the reward that is left
(`wallet.cpp:2457-2479`). -/
def devFeeOutput (blockReward : Int) : Option (List CTxOut × Int) :=
  if env.pastUpdate then
    (env.devFeeValue env.chainHeight).map fun devFeeFund =>
      if devFeeFund > 0 then ([⟨devFeeFund, env.devFeeScript⟩], blockReward) else ([], blockReward)
  else if env.devFee > 0 then
    let devFeeFund := env.sporkDevFee blockReward
    some ([⟨devFeeFund, env.devFeeScript⟩], blockReward - devFeeFund)
  else some ([], blockReward)

/-- The last outputs of a coinstake (`wallet.cpp:2488-2494`): the stake is split where the half
is above the threshold, which is a comparison without signs. -/
def payStake (stake : Stake) (vout : List CTxOut) (nCredit : Int) : List CTxOut :=
  let half := nCredit.tdiv 2
  if half % 2 ^ 64 > (stake.nStakeSplitThreshold.toNat * COIN) % 2 ^ 64 then
    let nValue := half.tdiv CENT * CENT
    vout.modify 1 (fun out => { out with nValue }) ++ [⟨nCredit - nValue, stake.scriptPubKeyOut⟩]
  else vout.modify 1 (fun out => { out with nValue := nCredit })

/-- The outputs that `CWallet::CreateCoinStake` gives a coinstake (`wallet.cpp:2345`,
`:2444`, `:2457-2494`). -/
def coinStakeOutputs (stake : Stake) : Option (List CTxOut) :=
  (env.blockValue env.chainHeight).bind fun value =>
    (devFeeOutput env (value + stake.nFees)).map fun (devFeeOut, blockReward) =>
      let vout := [⟨0, []⟩, ⟨0, stake.scriptPubKeyOut⟩] ++ devFeeOut
      let (vout, masternodesFund) := fillBlockPayee env vout blockReward
      payStake stake vout (stake.nCredit + blockReward - masternodesFund)

/-- `nMint` of the block (`main.cpp:2279`, `:2293-2294`). The coinbase has an empty output. -/
def Stake.nMint (stake : Stake) (vout : List CTxOut) : Int :=
  let nValueOut := (vout.map CTxOut.nValue).sum + (stake.vtx.map FeeTransaction.valueOut).sum
  let nValueIn := stake.nCredit + (stake.vtx.map FeeTransaction.valueIn).sum
  nValueOut - nValueIn

end Producer

end Esbcoin
