import Esbcoin.Mining.Collect
import Esbcoin.Validation.JustCheck

/-!
# The template of a block

`CWallet::CreateCoinStake` (`src/wallet.cpp:2335-2506`) and `CreateNewBlock`
(`src/miner.cpp:90-399`). The coinstake is made after the transactions of the pool are picked, from
a set of coins that the wallet keeps between calls. The search of a kernel is the one of
`Validation/KernelSearch`; the wallet's keys and signatures and the hash of a transaction are asked
of `MinerEnv`, and `TestBlockValidity`, which `Validation/JustCheck` renders, is an argument.
-/

namespace Esbcoin

/-- A coin of the wallet, of the set that `CreateCoinStake` keeps: a pointer to a transaction of the
wallet and the number of an output. -/
structure StakeCoin where
  tx : CTransaction
  n : UInt32
  hashBlock : UInt256
  /-- The wallet's transactions have passed `CheckTransaction`. -/
  nonneg : ∀ out ∈ tx.vout, 0 ≤ out.nValue

/-- The outpoint of a coin. -/
def StakeCoin.prevout (coin : StakeCoin) : COutPoint := ⟨coin.tx.getHash, coin.n⟩

/-- What `CreateCoinStake` works on: the balances, and what is static in it. -/
structure StakeWallet where
  /-- `GetBalance()`. -/
  nBalance : Int
  /-- `nReserveBalance` behind the reading of `-reservebalance`; `none` where that fails. -/
  nReserveBalance : Option Int
  setStakeCoins : List StakeCoin
  nLastStakeSetUpdate : Int

/-- What making a template asks of the rest of the node. -/
structure MinerEnv extends CollectEnv where
  /-- `GetTime()`. -/
  time : Int
  /-- `GetNextWorkRequired(pindexPrev)`. -/
  nextWorkRequired : UInt32
  nStakeSetUpdateTime : Int
  nStakeSplitThreshold : UInt64
  /-- `SelectStakeCoins` for a target amount. -/
  selectStakeCoins : Int → List StakeCoin
  /-- `CheckStakeKernelHash` without `fCheck`: the second it finds, if it finds one. -/
  kernelSearch : UInt32 → CBlockIndex → StakeCoin → UInt32 → Option UInt32
  /-- `CKeyStore::GetKey`, with `GetPubKey` of the key. -/
  getKey : List UInt8 → Option (List UInt8)
  /-- `SignSignature` of the only input, if it succeeds. -/
  signSignature : CTransaction → CTransaction → Option CScript
  /-- The hash of a transaction, which does not look at the field `hash`. -/
  computeHash : CTransaction → UInt256

/-- The transaction with its hash computed. -/
def MinerEnv.finish (env : MinerEnv) (tx : CTransaction) : CTransaction :=
  { tx with hash := env.computeHash tx }

/-! ## The coinstake -/

/-- What the search of `CreateCoinStake` found. -/
structure FoundKernel where
  coin : StakeCoin
  nCredit : Int
  scriptPubKeyOut : CScript
  nTxNewTime : UInt32
  nonneg : 0 ≤ nCredit

variable (env : MinerEnv)

/-- The script that a stake pays to (`wallet.cpp:2411-2439`); `none` where the script of the kernel
is not supported or its key is not there. -/
def stakeScript (scriptPubKeyKernel : CScript) : Option CScript :=
  if scriptPubKeyKernel.isPayToScriptHash then none
  else
    match matchTemplate templatePubkey scriptPubKeyKernel with
    | some _ => some scriptPubKeyKernel
    | none =>
      match matchTemplate templatePubkeyHash scriptPubKeyKernel with
      | some (hash :: _) =>
        (env.getKey hash).map fun pubKey => CScript.pushData pubKey ++ [CScript.OP_CHECKSIG]
      | _ => none

/-- The loop over the coins (`wallet.cpp:2380-2451`). The outer `none` is a read out of range. -/
def findKernel (tip : CBlockIndex) : List StakeCoin → Option (Option FoundKernel)
  | [] => some none
  | coin :: rest =>
    match env.reward.chain.mapBlockIndex.lookup coin.hashBlock with
    | none => findKernel tip rest
    | some pindex =>
      match env.kernelSearch env.nextWorkRequired pindex coin
          (UInt32.ofInt env.checks.getAdjustedTime) with
      | none => findKernel tip rest
      | some nTxNewTime =>
        if nTxNewTime.toNat ≤ getMedianTimePast env.reward.chain.mapBlockIndex tip then
          findKernel tip rest
        else
          match found : coin.tx.vout[coin.n.toNat]? with
          | none => none
          | some out =>
            some ((stakeScript env out.scriptPubKey).map fun scriptPubKeyOut =>
              ⟨coin, out.nValue, scriptPubKeyOut, nTxNewTime,
                coin.nonneg out (List.mem_of_getElem? found)⟩)

/-- The outputs of `coinStakeOutputs`, for fees that are given (`wallet.cpp:2457-2494`). -/
def stakeOutputs (env : RewardEnv) (stake : Stake) (nFees : Int) : Option (List CTxOut) :=
  (env.blockValue env.chainHeight).bind fun value =>
    (devFeeOutput env (value + nFees)).map fun (devFeeOut, blockReward) =>
      let vout := [⟨0, []⟩, ⟨0, stake.scriptPubKeyOut⟩] ++ devFeeOut
      let (vout, masternodesFund) := fillBlockPayee env vout blockReward
      payStake stake vout (stake.nCredit + blockReward - masternodesFund)

/-- The stake of a kernel. -/
def FoundKernel.stake (kernel : FoundKernel) (worth : kernel.nCredit ≠ 0) : Stake where
  scriptPubKeyOut := kernel.scriptPubKeyOut
  nCredit := kernel.nCredit
  positive := lt_of_le_of_ne kernel.nonneg (Ne.symm worth)
  nStakeSplitThreshold := env.nStakeSplitThreshold
  vtx := []

/-- The coinstake of a kernel (`wallet.cpp:2441-2444, 2453-2501`), unless it cannot be signed. -/
def coinStakeOf (kernel : FoundKernel) (nSpendable nFees : Int) : Option (Option CTransaction) :=
  if worth : kernel.nCredit = 0 then some none
  else if kernel.nCredit > nSpendable then some none
  else
    (stakeOutputs env.reward (kernel.stake env worth) nFees).map fun vout =>
      let txNew : CTransaction :=
        { CTransaction.empty with vin := [⟨kernel.coin.prevout, [], 0xffffffff⟩], vout }
      (env.signSignature kernel.coin.tx txNew).map fun scriptSig =>
        env.finish { txNew with vin := [⟨kernel.coin.prevout, scriptSig, 0xffffffff⟩] }

/-- The set of coins is renewed when it is old (`wallet.cpp:2356-2366`). -/
def renewCoins (wallet : StakeWallet) (nSpendable : Int) : StakeWallet :=
  if env.time - wallet.nLastStakeSetUpdate > env.nStakeSetUpdateTime then
    { wallet with
      setStakeCoins := env.selectStakeCoins nSpendable
      nLastStakeSetUpdate := env.time }
  else wallet

/-- `CWallet::CreateCoinStake` (`wallet.cpp:2335-2506`): the coinstake and its time. -/
def createCoinStake (tip : CBlockIndex) (wallet : StakeWallet) (nFees : Int) :
    Option (Option (CTransaction × UInt32) × StakeWallet) :=
  match wallet.nReserveBalance with
  | none => some (none, wallet)
  | some nReserveBalance =>
    if wallet.nBalance ≤ nReserveBalance then some (none, wallet)
    else
      let nSpendable := wallet.nBalance - nReserveBalance
      let wallet := renewCoins env wallet nSpendable
      (findKernel env tip wallet.setStakeCoins).bind fun found =>
        match found with
        | none => some (none, wallet)
        | some kernel =>
          (coinStakeOf env kernel nSpendable nFees).map fun made =>
            match made with
            | none => (none, wallet)
            | some txNew =>
              (some (txNew, kernel.nTxNewTime), { wallet with nLastStakeSetUpdate := 0 })

/-! ## The template -/

/-- `CBlockTemplate` (`main.h:612-616`), with the fields of the block that are filled in. -/
structure CBlockTemplate where
  hashPrevBlock : UInt256
  nTime : UInt32
  nBits : UInt32
  vtx : List CTransaction
  vTxFees : List Int
  vTxSigOps : List Int

/-- What `CreateNewBlock` reads and changes besides: the pool, the wallet and when it last
searched. -/
structure MinerState where
  pool : CTxMemPool
  wallet : StakeWallet
  nLastCoinStakeSearchTime : Int

/-- The coinbase as it is made first (`miner.cpp:102-115`). -/
def firstCoinBase (scriptPubKeyIn : CScript) : CTransaction :=
  let pastWork := decide (env.reward.chainHeight ≥ env.reward.params.lastPOWBlock)
  env.finish { CTransaction.empty with
    vin := [⟨COutPoint.null, [], 0xffffffff⟩]
    vout := [⟨0, if pastWork then scriptPubKeyIn else []⟩] }

/-- The coinbase of a proof of stake (`miner.cpp:125`): its output is emptied in place, and its hash
stays as it was. -/
def stakeCoinBase (scriptPubKeyIn : CScript) : CTransaction :=
  { firstCoinBase env scriptPubKeyIn with vout := [⟨0, []⟩] }

/-- The text in the first coinbase (`miner.cpp:322-323`). -/
def premineBlob : List UInt8 :=
  [0x47, 0x65, 0x6e, 0x65, 0x72, 0x61, 0x74, 0x65, 0x20, 0x50, 0x72, 0x65, 0x6d, 0x69, 0x6e, 0x65,
    0x20, 0x54, 0x78]

/-- The outputs of a coinbase that pays a reward (`miner.cpp:353-373`). -/
def coinBaseOutputs (scriptPubKeyIn : CScript) (block_value nFees : Int) : List CTxOut :=
  let vout : List CTxOut := [⟨block_value + nFees, scriptPubKeyIn⟩]
  if env.nHeight > 1 then
    let (vout, mn_reward) := fillBlockPayee env.reward vout block_value
    vout.modify 0 fun out => { out with nValue := out.nValue - mn_reward }
  else vout

/-- The coinbase of a proof of work (`miner.cpp:320-323, 353-373`). -/
def payingCoinBase (scriptPubKeyIn : CScript) (nFees : Int) : Option CTransaction :=
  (env.reward.blockValue (env.nHeight - 1)).map fun block_value =>
    env.finish { CTransaction.empty with
      vin := [⟨COutPoint.null, CScript.pushInt64 env.nHeight ++ [0x00], 0xffffffff⟩]
      vout := coinBaseOutputs env scriptPubKeyIn block_value nFees
      blob := if env.nHeight = 1 then premineBlob else [] }

/-- The template of a block with these generated transactions in front of the picked ones. -/
def templateOf (tip : CBlockIndex) (nTime : UInt32) (generated : List CTransaction)
    (coinBaseFees : Int) (c : Collecting) : CBlockTemplate where
  hashPrevBlock := tip.phashBlock.getD 0
  nTime
  nBits := env.nextWorkRequired
  vtx := generated ++ c.vtx
  vTxFees := coinBaseFees :: c.vTxFees
  vTxSigOps :=
    (generated.head?.elim (-1) fun coinBase => (getLegacySigOpCount coinBase : Int)) ::
      c.vTxSigOps.map Int.ofNat

/-- The proof of stake of a template (`miner.cpp:325-350`). -/
def stakeTemplate (tip : CBlockIndex) (s : MinerState) (scriptPubKeyIn : CScript) (c : Collecting) :
    Option (Option CBlockTemplate × MinerState) :=
  let nSearchTime : Int := (UInt32.ofInt env.checks.getAdjustedTime).toNat
  if nSearchTime < s.nLastCoinStakeSearchTime then some (none, s)
  else
    (createCoinStake env tip s.wallet c.nFees).map fun (made, wallet) =>
      (made.map fun (txCoinStake, nTime) =>
          templateOf env tip nTime [stakeCoinBase env scriptPubKeyIn, txCoinStake] (-1) c,
        { s with wallet, nLastCoinStakeSearchTime := nSearchTime })

/-- The proof of work of a template (`miner.cpp:352-374, 380-386`). -/
def workTemplate (tip : CBlockIndex) (scriptPubKeyIn : CScript) (c : Collecting) :
    Option CBlockTemplate :=
  (payingCoinBase env scriptPubKeyIn c.nFees).map fun coinBase =>
    templateOf env tip
      (UInt32.ofInt (max (getMedianTimePast env.reward.chain.mapBlockIndex tip + 1)
        env.checks.getAdjustedTime))
      [coinBase] (-c.nFees) c

/-- `CreateNewBlock` (`miner.cpp:90-399`); the inner `none` is a null pointer. `valid` is
`TestBlockValidity` of the block, which is asked below the last block of proof of work only. -/
def createNewBlock (valid : CBlockTemplate → Bool) (s : MinerState) (scriptPubKeyIn : CScript)
    (fProofOfStake : Bool) : Option (Option CBlockTemplate × MinerState) :=
  env.reward.chain.tip.bind fun tip =>
    (collectTransactions env.toCollectEnv s.pool).bind fun c =>
      (if fProofOfStake then stakeTemplate env tip s scriptPubKeyIn c
        else (workTemplate env tip scriptPubKeyIn c).map fun template => (some template, s)).map
        fun (made, s) =>
          match made with
          | none => (none, s)
          | some template =>
            if env.reward.chainHeight < env.reward.params.lastPOWBlock && !valid template then
              (none, { s with pool := s.pool.clear })
            else (some template, s)

end Esbcoin
