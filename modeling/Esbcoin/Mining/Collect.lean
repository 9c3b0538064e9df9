import Mathlib.Data.Finset.Erase
import Mathlib.Data.Finset.Insert
import Esbcoin.Masternode.BlockPayees
import Esbcoin.Mempool.Accept
import Esbcoin.Script.SigOps
import Esbcoin.Validation.ContextualCheck

/-!
# Collecting transactions of the pool

The part of `CreateNewBlock` (`src/miner.cpp:45-83, 129-318`) that picks transactions of the memory
pool: the queue by priority or fee rate, the transactions that wait for others, and the scratch
view. A pointer to a transaction of the pool is the transaction; one into `vOrphan` is a number that
is never used again, so that a pointer to a removed element is told from others. What ends the call
without a template, an assertion, an exception or a read out of range, is `none`.
-/

namespace Esbcoin

/-- `DEFAULT_BLOCK_MAX_SIZE` (`main.h:56`). -/
def DEFAULT_BLOCK_MAX_SIZE : Nat := 1500000

/-- `DEFAULT_BLOCK_MIN_SIZE` (`main.h:57`). -/
def DEFAULT_BLOCK_MIN_SIZE : Nat := 0

/-! ## Signature operations -/

/-- `GetLegacySigOpCount` (`main.cpp:843-853`). -/
def getLegacySigOpCount (tx : CTransaction) : Nat :=
  (tx.vin.map fun txin => (txin.scriptSig.getSigOpCount false).toNat).sum +
    (tx.vout.map fun txout => (txout.scriptPubKey.getSigOpCount false).toNat).sum

/-- What an input adds in `GetP2SHSigOpCount` (`main.cpp:862-864`). -/
def scriptHashSigOps (prevout : CTxOut) (txin : CTxIn) : Nat :=
  if prevout.scriptPubKey.isPayToScriptHash then
    (prevout.scriptPubKey.getSigOpCountOf txin.scriptSig).toNat
  else 0

/-- The loop of `GetP2SHSigOpCount`; `none` is the assertion of `GetOutputFor`. -/
def sumScriptHashSigOps (inputs : FlatCoins) : List CTxIn → Option Nat
  | [] => some 0
  | txin :: vin =>
    match inputs.getOutputFor txin, sumScriptHashSigOps inputs vin with
    | some prevout, some rest => some (scriptHashSigOps prevout txin + rest)
    | _, _ => none

/-- `GetP2SHSigOpCount` (`main.cpp:855-867`). -/
def getP2SHSigOpCount (tx : CTransaction) (inputs : FlatCoins) : Option Nat :=
  if tx.isCoinBase then some 0 else sumScriptHashSigOps inputs tx.vin

/-! ## Priorities -/

/-- `CTransaction::CalculateModifiedSize` (`primitives/transaction.cpp:187-203`). -/
def CTransaction.calculateModifiedSize (tx : CTransaction) (nTxSize : Nat) : Nat :=
  let nTxSize := if nTxSize = 0 then tx.getSerializeSize else nTxSize
  tx.vin.foldl (fun nTxSize txin =>
    let offset := 41 + min 110 txin.scriptSig.length
    if nTxSize > offset then nTxSize - offset else nTxSize) nTxSize

/-- `CTransaction::ComputePriority` (`primitives/transaction.cpp:179-185`). -/
def CTransaction.computePriority (tx : CTransaction) (dPriorityInputs : ℚ) (nTxSize : Nat) : ℚ :=
  let nTxSize := tx.calculateModifiedSize nTxSize
  if nTxSize = 0 then 0 else Binary64.nearest (dPriorityInputs / nTxSize)

/-- `nSatoshisPerK` of `CFeeRate(nFeePaid, nSize)` (`amount.cpp:10-16`); the division is one of
unsigned numbers. -/
def feeRateOf (nFeePaid : Int) (nSize : Nat) : Int :=
  if nSize > 0 then ((nFeePaid * 1000 % 2 ^ 64) / nSize).bmod (2 ^ 64) else 0

/-- `AllowFree` (`txmempool.h:20-30`). -/
def allowFree (dPriority : ℚ) : Bool := decide (dPriority > (COIN * 1440 / 250 : Int))

/-- `TxPriority` (`miner.cpp:63`). -/
structure TxPriority where
  dPriority : ℚ
  feeRate : Int
  tx : CTransaction
deriving DecidableEq

/-- `TxPriorityCompare` (`miner.cpp:64-83`). -/
def TxPriority.less (byFee : Bool) (a b : TxPriority) : Bool :=
  if byFee then
    if a.feeRate = b.feeRate then decide (a.dPriority < b.dPriority)
    else decide (a.feeRate < b.feeRate)
  else
    if a.dPriority = b.dPriority then decide (a.feeRate < b.feeRate)
    else decide (a.dPriority < b.dPriority)

/-- What is at the front of a heap of `std::make_heap`: an element that is not less than another
one. Which of equal ones it is may differ from turn to turn. -/
structure HeapOrder where
  front : Nat → Bool → List TxPriority → Nat
  inside : ∀ turn byFee queue, queue ≠ [] → front turn byFee queue < queue.length
  greatest : ∀ turn byFee queue first, queue[front turn byFee queue]? = some first →
    ∀ other ∈ queue, first.less byFee other = false

/-! ## The node -/

/-- A node that makes a template: its chain and payments, the checks of inputs, the view at the
tip and the settings. -/
structure CollectEnv where
  reward : RewardEnv
  checks : ConnectEnv
  pcoinsTip : CoinsView
  heap : HeapOrder
  fDebug : Bool
  /-- `-blockmaxsize`, `-blockprioritysize` and `-blockminsize`. -/
  blockmaxsize : Option Int
  blockprioritysize : Option Int
  blockminsize : Option Int
  /-- `::minRelayTxFee.nSatoshisPerK`. -/
  minRelayTxFee : Int

/-- An argument of the command line as an `unsigned int`. -/
def unsignedArg (arg : Option Int) (nDefault : Nat) : Nat := (arg.getD nDefault % 2 ^ 32).toNat

namespace CollectEnv

variable (env : CollectEnv)

/-- `nHeight` (`miner.cpp:156-157`). -/
def nHeight : Int := env.reward.chainHeight + 1

/-- `nBlockMaxSize` (`miner.cpp:130-132`). -/
def nBlockMaxSize : Nat :=
  max 1000 (min (MAX_BLOCK_SIZE - 1000) (unsignedArg env.blockmaxsize DEFAULT_BLOCK_MAX_SIZE))

/-- `nBlockPrioritySize` (`miner.cpp:136-137`). -/
def nBlockPrioritySize : Nat :=
  min env.nBlockMaxSize (unsignedArg env.blockprioritysize DEFAULT_BLOCK_PRIORITY_SIZE)

/-- `nBlockMinSize` (`miner.cpp:141-142`). -/
def nBlockMinSize : Nat :=
  min env.nBlockMaxSize (unsignedArg env.blockminsize DEFAULT_BLOCK_MIN_SIZE)

/-- `CheckInputs(tx, state, view, true, MANDATORY_SCRIPT_VERIFY_FLAGS, true)`. -/
def checksInputs (view : FlatCoins) (tx : CTransaction) : Except Failure Bool :=
  checkInputs { env.checks with nScriptCheckThreads := 0 } env.reward.chain.mapBlockIndex
    ⟨view, env.pcoinsTip.hashBlock⟩ tx true MANDATORY_SCRIPT_VERIFY_FLAGS

end CollectEnv

/-! ## The queues -/

/-- `COrphan` (`miner.cpp:45-56`). -/
structure COrphan where
  tx : CTransaction
  setDependsOn : Finset UInt256 := ∅
  feeRate : Int := 0
  dPriority : ℚ := 0

/-- The queues of `CreateNewBlock` (`miner.cpp:160-166`). -/
structure TxQueues where
  vOrphan : AssocMap Nat COrphan := ∅
  /-- How many elements `vOrphan` has been given. -/
  nOrphans : Nat := 0
  mapDependers : AssocMap UInt256 (List Nat) := ∅
  vecPriority : List TxPriority := []

/-- What is known of a transaction while its inputs are read. -/
structure InputsRead where
  queues : TxQueues
  porphan : Option Nat := none
  dPriority : ℚ := 0
  nTotalIn : Int := 0

namespace InputsRead

variable (r : InputsRead)

/-- The transaction waits for one of the pool (`miner.cpp:193-202`). -/
def waitFor (tx : CTransaction) (hash : UInt256) (nValue : Int) : InputsRead :=
  let porphan := r.porphan.getD r.queues.nOrphans
  let orphan := (r.queues.vOrphan.lookup porphan).getD { tx }
  { r with
    porphan := some porphan
    nTotalIn := r.nTotalIn + nValue
    queues := { r.queues with
      nOrphans := if r.porphan.isSome then r.queues.nOrphans else r.queues.nOrphans + 1
      vOrphan := r.queues.vOrphan.insert porphan
        { orphan with setDependsOn := insert hash orphan.setDependsOn }
      mapDependers := r.queues.mapDependers.insert hash
        ((r.queues.mapDependers.lookup hash).getD [] ++ [porphan]) } }

/-- `vOrphan.pop_back()`, where the transaction has an element (`miner.cpp:188-189`). -/
def dropOrphan : InputsRead :=
  match r.porphan with
  | none => r
  | some porphan => { r with queues := { r.queues with vOrphan := r.queues.vOrphan.erase porphan } }

/-- An output at the tip is read (`miner.cpp:204-212`). -/
def addInput (coins : CCoins) (nValueIn nHeight : Int) : InputsRead :=
  { r with
    nTotalIn := r.nTotalIn + nValueIn
    dPriority := Binary64.add r.dPriority
      (Binary64.mul (Binary64.nearest nValueIn) (nHeight - coins.nHeight)) }

end InputsRead

variable (env : CollectEnv) (pool : CTxMemPool)

/-- The loop over the inputs of a transaction (`miner.cpp:178-213`), with `fMissingInputs`. -/
def readInputs (tx : CTransaction) : InputsRead → List CTxIn → Option (InputsRead × Bool)
  | r, [] => some (r, false)
  | r, txin :: vin =>
    match env.pcoinsTip.coins.get txin.prevout.hash with
    | none =>
      match pool.mapTx.lookup txin.prevout.hash with
      | none => if env.fDebug then none else some (r.dropOrphan, true)
      | some parent =>
        (parent.tx.vout[txin.prevout.n.toNat]?).bind fun out =>
          readInputs tx (r.waitFor tx txin.prevout.hash out.nValue) vin
    | some coins =>
      (coins.vout[txin.prevout.n.toNat]?).bind fun out =>
        readInputs tx (r.addInput coins out.nValue env.nHeight) vin

/-- Put a transaction whose inputs have been read into its queue (`miner.cpp:216-229`). -/
def queueTx (tx : CTransaction) (r : InputsRead) : Option TxQueues :=
  let nTxSize := tx.getSerializeSize
  let (dPriority, nTotalIn) :=
    pool.applyDeltas tx.getHash (tx.computePriority r.dPriority nTxSize) r.nTotalIn
  tx.getValueOut.map fun nValueOut =>
    let feeRate := feeRateOf (nTotalIn - nValueOut) nTxSize
    match r.porphan with
    | some porphan =>
      { r.queues with
        vOrphan := r.queues.vOrphan.modify porphan fun orphan =>
          { orphan with dPriority, feeRate } }
    | none =>
      { r.queues with vecPriority := r.queues.vecPriority ++ [⟨dPriority, feeRate, tx⟩] }

/-- Is a transaction left out from the start (`miner.cpp:171`)? -/
def leftOut (tx : CTransaction) : Bool :=
  tx.isCoinBase || tx.isCoinStake ||
    !isFinalTx env.checks.getAdjustedTime env.reward.chain.chainActive tx env.nHeight 0

/-- The loop over the pool (`miner.cpp:168-230`). -/
def queueTransactions : TxQueues → List CTransaction → Option TxQueues
  | queues, [] => some queues
  | queues, tx :: txs =>
    if leftOut env tx then queueTransactions queues txs
    else
      (readInputs env pool tx { queues } tx.vin).bind fun (r, fMissingInputs) =>
        if fMissingInputs then queueTransactions r.queues txs
        else (queueTx pool tx r).bind fun queues => queueTransactions queues txs

/-- The transactions of the pool in the order of its map. -/
def CTxMemPool.transactions : List CTransaction :=
  (pool.mapTx.entries.insertionSort fun a b => a.1.toNat ≤ b.1.toNat).map fun e => e.2.tx

/-! ## The loop -/

/-- What the loop works on (`miner.cpp:145-158`), with the lists of the template from the
first transaction of the pool on. -/
structure Collecting where
  queues : TxQueues
  view : FlatCoins
  fSortedByFee : Bool
  nBlockSize : Nat := 1000
  nBlockSigOps : Nat := 100
  nFees : Int := 0
  vtx : List CTransaction := []
  vTxFees : List Int := []
  vTxSigOps : List Nat := []

/-- Is the transaction passed over before its inputs are looked at (`miner.cpp:245-261`)? -/
def passedOver (c : Collecting) (next : TxPriority) : Bool :=
  let nTxSize := next.tx.getSerializeSize
  let (dPriorityDelta, nFeeDelta) := pool.applyDeltas next.tx.getHash 0 0
  decide (c.nBlockSize + nTxSize ≥ env.nBlockMaxSize) ||
    decide (c.nBlockSigOps + getLegacySigOpCount next.tx ≥ MAX_BLOCK_SIGOPS) ||
    (c.fSortedByFee && decide (dPriorityDelta ≤ 0) && decide (nFeeDelta ≤ 0) &&
      decide (next.feeRate < env.minRelayTxFee) &&
      decide (c.nBlockSize + nTxSize ≥ env.nBlockMinSize))

/-- `fSortedByFee` behind `miner.cpp:263-270`. -/
def sortedByFee (c : Collecting) (next : TxPriority) : Bool :=
  c.fSortedByFee ||
    decide (c.nBlockSize + next.tx.getSerializeSize ≥ env.nBlockPrioritySize) ||
    !allowFree next.dPriority

/-- The checks on the inputs (`miner.cpp:272-286`): the fee and the signature operations of a
transaction that is taken. -/
def takes (c : Collecting) (tx : CTransaction) : Option (Option (Int × Nat)) :=
  if !c.view.haveInputs tx then some none
  else
    (c.view.getValueIn tx).bind fun nValueIn =>
      tx.getValueOut.bind fun nValueOut =>
        (getP2SHSigOpCount tx c.view).bind fun nP2SHSigOps =>
          let nTxSigOps := getLegacySigOpCount tx + nP2SHSigOps
          if c.nBlockSigOps + nTxSigOps ≥ MAX_BLOCK_SIGOPS then some none
          else
            match env.checksInputs c.view tx with
            | .error .crash => none
            | .error _ => some none
            | .ok _ => some (some (nValueIn - nValueOut, nTxSigOps))

/-- The loop over the transactions that wait for one (`miner.cpp:305-316`). -/
def release (hash : UInt256) : TxQueues → List Nat → Option TxQueues
  | queues, [] => some queues
  | queues, porphan :: rest =>
    (queues.vOrphan.lookup porphan).bind fun orphan =>
      if orphan.setDependsOn = ∅ then release hash queues rest
      else
        let setDependsOn := orphan.setDependsOn.erase hash
        let vOrphan := queues.vOrphan.insert porphan { orphan with setDependsOn }
        if setDependsOn = ∅ then
          release hash { queues with
            vOrphan
            vecPriority := queues.vecPriority ++ [⟨orphan.dPriority, orphan.feeRate, orphan.tx⟩] }
            rest
        else release hash { queues with vOrphan } rest

/-- Add a transaction to the block (`miner.cpp:288-316`). -/
def addToBlock (c : Collecting) (tx : CTransaction) (nTxFees : Int) (nTxSigOps : Nat) :
    Option Collecting :=
  (updateCoins tx c.view env.nHeight).bind fun (view, _) =>
    (release tx.getHash c.queues ((c.queues.mapDependers.lookup tx.getHash).getD [])).map
      fun queues =>
        { c with
          queues
          view
          nBlockSize := c.nBlockSize + tx.getSerializeSize
          nBlockSigOps := c.nBlockSigOps + nTxSigOps
          nFees := c.nFees + nTxFees
          vtx := c.vtx ++ [tx]
          vTxFees := c.vTxFees ++ [nTxFees]
          vTxSigOps := c.vTxSigOps ++ [nTxSigOps] }

/-- What a turn does with the element it has taken from the queue. -/
def tryNext (c : Collecting) (next : TxPriority) : Option Collecting :=
  if passedOver env pool c next then some c
  else
    let c := { c with fSortedByFee := sortedByFee env c next }
    (takes env c next.tx).bind fun taken =>
      match taken with
      | none => some c
      | some (nTxFees, nTxSigOps) => addToBlock env c next.tx nTxFees nTxSigOps

/-- One turn of the loop (`miner.cpp:236-317`), where the queue is not empty. -/
def collectTurn (turn : Nat) (c : Collecting) : Option Collecting :=
  let queue := c.queues.vecPriority
  let first := env.heap.front turn c.fSortedByFee queue
  match queue[first]? with
  | none => none
  | some next =>
    tryNext env pool { c with queues := { c.queues with vecPriority := queue.eraseIdx first } } next

/-- The loop, for at most so many turns. -/
def collect : Nat → Collecting → Option Collecting
  | 0, c => some c
  | left + 1, c =>
    if c.queues.vecPriority = [] then some c
    else (collectTurn env pool left c).bind (collect left)

/-- How many turns the loop has left at most: an element that waits comes into the queue once. -/
def TxQueues.turns (queues : TxQueues) : Nat :=
  queues.vecPriority.length +
    queues.vOrphan.total fun _ orphan => if orphan.setDependsOn = ∅ then 0 else 1

/-- The transactions that are picked, with all that the loop leaves behind. -/
def collectTransactions : Option Collecting :=
  (queueTransactions env pool {} pool.transactions).bind fun queues =>
    collect env pool queues.turns
      { queues, view := env.pcoinsTip.coins, fSortedByFee := decide (env.nBlockPrioritySize ≤ 0) }

end Esbcoin
