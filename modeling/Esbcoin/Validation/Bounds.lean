import Esbcoin.Masternode.CoinStake
import Esbcoin.Validation.ProofOfStake
import Esbcoin.Validation.TxFilter

/-!
# Reads past the end of a transaction

`CheckTxFilter`, `CheckTransaction`, `IsBlockPayeeValid`, `CheckBlock` and `CheckProofOfStake` index
the transactions of a block and the outputs of a transaction. Nothing compares the index of a spent
output with the outputs there are, a proof-of-stake block may have a coinbase without outputs, and
the payee check wants a second transaction and a third output.
-/

namespace Esbcoin

open Payments

/-- A node whose checks are those of the source. -/
structure NodeChecks where
  /-- The rest of what `CheckBlock` asks; its two checks of payees and addresses are not used. -/
  base : CheckEnv
  rewards : RewardEnv
  /-- `masternodeSync.IsSynced()`. -/
  isSynced : Bool
  filter : FilterEnv
  stake : StakeEnv

namespace NodeChecks

variable (node : NodeChecks)

/-- What `CheckBlock` and `CheckTransaction` ask of the node. -/
def checkEnv : CheckEnv :=
  { node.base with
    isBlockPayeeValid := isBlockPayeeValid node.rewards node.isSynced
    checkTxFilter := node.filter.checkTxFilter }

/-! ## The conditions -/

/-- The checks of `CheckTransaction` before the address filter. -/
structure BasicChecks (tx : CTransaction) : Prop where
  vin : tx.vin.isEmpty = false
  vout : tx.vout.isEmpty = false
  size : tx.getSerializeSize ≤ MAX_BLOCK_SIZE
  outputs : checkOutputs node.checkEnv tx 0 tx.vout = .ok ()
  distinct : tx.prevouts.Nodup
  prevouts : checkPrevouts tx = .ok ()

/-- `CheckTxFilter` looks for an output that is not there. -/
def TransactionReadsPast (nBlockTime : Int) (tx : CTransaction) : Prop :=
  node.BasicChecks tx ∧ node.base.isInitialBlockDownload = false ∧
    node.filter.ReadsPast nBlockTime tx

/-- A transaction breaks a rule of `CheckTransaction`. -/
def TransactionRefused (nBlockTime : Int) (tx : CTransaction) : Prop :=
  ¬ node.BasicChecks tx ∨
    (node.base.isInitialBlockDownload = false ∧ node.filter.Refuses nBlockTime tx)

/-- `IsBlockPayeeValid` reads past the end: the transaction that should pay is not there, or the dev
fee is due and it has no third output. -/
def PayeeReadsPast (block : CBlock) (nBlockHeight : Int) : Prop :=
  node.isSynced = true ∧
    (payingTransaction node.rewards.params block nBlockHeight = none ∨
      ∃ txNew payees devFeeFund nReward,
        payingTransaction node.rewards.params block nBlockHeight = some txNew ∧
        node.rewards.payments.mapMasternodeBlocks.lookup nBlockHeight = some payees ∧
        DevFeeDue node.rewards payees devFeeFund nReward ∧ txNew.vout.length ≤ 2)

/-- The payee check refuses the block. -/
def PayeeRefused (block : CBlock) (nBlockHeight : Int) : Prop :=
  node.isSynced = true ∧ node.rewards.paymentEnforcement = true ∧
    ∃ txNew, payingTransaction node.rewards.params block nBlockHeight = some txNew ∧
      isTransactionValid node.rewards txNew nBlockHeight = some false

/-- The checks of `CheckBlock` before it indexes the transactions. -/
structure BlockChecks (block : CBlock) (fCheckMerkleRoot : Bool) : Prop where
  header : checkBlockHeader node.checkEnv block block.isProofOfWork = .ok ()
  time : block.getBlockTime ≤
    node.base.getAdjustedTime + (if block.isProofOfStake then 180 else 7200)
  merkleRoot : checkMerkleRoot node.checkEnv block fCheckMerkleRoot = .ok ()
  length : (block.vtx.isEmpty || block.vtx.length > MAX_BLOCK_SIZE ||
    block.getSerializeSize > MAX_BLOCK_SIZE) = false

/-- `CheckBlock` reads an output of an empty coinbase. -/
def GenerationReadsPast (block : CBlock) : Prop :=
  block.isProofOfStake = true ∧ ∃ coinBase vtx, block.vtx = coinBase :: vtx ∧
    coinBase.isCoinBase = true ∧ vtx.any CTransaction.isCoinBase = false ∧ coinBase.vout = []

/-- `CheckBlock` gets to the payees (`main.cpp:3276-3296`). -/
def PayeeChecked (mapBlockIndex : BlockMap) (chainActive : CChain) (block : CBlock) : Prop :=
  chainActive.tip.isSome = true ∧ heightByParent mapBlockIndex block ≠ 0 ∧
    node.base.isInitialBlockDownload = false

/-- `CheckBlock` reads past the end at the coinbase, at the payees or in a transaction behind none
that breaks a rule. -/
def BlockReadsPast (mapBlockIndex : BlockMap) (chainActive : CChain) (block : CBlock)
    (fCheckMerkleRoot : Bool) : Prop :=
  let nHeight := heightByParent mapBlockIndex block
  node.BlockChecks block fCheckMerkleRoot ∧
    (GenerationReadsPast block ∨
      (checkGeneration block = .ok () ∧ checkLockedInputs node.checkEnv block = .ok () ∧
        ((node.PayeeChecked mapBlockIndex chainActive block ∧ node.PayeeReadsPast block nHeight) ∨
          (¬ (node.PayeeChecked mapBlockIndex chainActive block ∧
              (node.PayeeReadsPast block nHeight ∨ node.PayeeRefused block nHeight)) ∧
            BadBeforeStop (node.TransactionReadsPast block.getBlockTime)
              (node.TransactionRefused block.getBlockTime) block.vtx))))

/-- `CheckProofOfStake` reads an output that is not there. -/
def StakeReadsPast (block : CBlock) : Prop :=
  block.isProofOfStake = true ∧ ∃ tx txin txPrev hashBlock, block.vtx[1]? = some tx ∧
    tx.vin[0]? = some txin ∧
    getTransaction node.stake.source node.stake.chainActive txin.prevout.hash true =
      some (txPrev, hashBlock) ∧
    txPrev.vout.length ≤ txin.prevout.n.toNat

/-! ## CheckTransaction -/

variable {node}
variable {nBlockTime : Int} {tx : CTransaction} {block : CBlock} {nBlockHeight : Int}

theorem checkOutputs_ne_crash (env : CheckEnv) (nValueOut : Int) (vout : List CTxOut) :
    checkOutputs env tx nValueOut vout ≠ .error .crash := by
  induction vout generalizing nValueOut with
  | nil => simp [checkOutputs]
  | cons txout vout ih =>
    simp only [checkOutputs, ne_eq, bind_error_unit, rejectIf_eq_crash, dos, reduceCtorEq,
      and_false, false_or, not_and]
    intro _ _ _ _
    exact ih _

theorem checkPrevouts_ne_crash : checkPrevouts tx ≠ .error .crash := by
  unfold checkPrevouts
  split <;> simp [dos]

theorem basicChecks_iff : node.BasicChecks tx ↔
    tx.vin.isEmpty = false ∧ tx.vout.isEmpty = false ∧ tx.getSerializeSize ≤ MAX_BLOCK_SIZE ∧
      checkOutputs node.checkEnv tx 0 tx.vout = .ok () ∧ tx.prevouts.Nodup ∧
      checkPrevouts tx = .ok () :=
  ⟨fun ⟨a, b, c, d, e, f⟩ => ⟨a, b, c, d, e, f⟩, fun ⟨a, b, c, d, e, f⟩ => ⟨a, b, c, d, e, f⟩⟩

theorem checkFiltered_eq_crash : checkFiltered node.checkEnv tx nBlockTime = .error .crash ↔
    node.base.isInitialBlockDownload = false ∧ node.filter.ReadsPast nBlockTime tx := by
  rw [← FilterEnv.checkTxFilter_eq_none]
  unfold checkFiltered
  cases download : node.base.isInitialBlockDownload <;> simp [checkEnv, download, bind_error, dos]

theorem checkFiltered_eq_ok : checkFiltered node.checkEnv tx nBlockTime = .ok () ↔
    ¬ (node.base.isInitialBlockDownload = false ∧
      (node.filter.ReadsPast nBlockTime tx ∨ node.filter.Refuses nBlockTime tx)) := by
  rw [← FilterEnv.checkTxFilter_eq_none, ← FilterEnv.checkTxFilter_eq_false]
  unfold checkFiltered
  cases download : node.base.isInitialBlockDownload with
  | true => simp [checkEnv, download]
  | false =>
    simp only [checkEnv, download, Bool.false_eq_true, if_false, bind_ok, orCrash_eq_ok,
      rejectIf_eq_ok, true_and]
    cases node.filter.checkTxFilter tx nBlockTime with
    | none => simp
    | some passes => cases passes <;> simp

theorem checkTransaction_eq_crash :
    checkTransaction node.checkEnv tx nBlockTime = .error .crash ↔
      node.TransactionReadsPast nBlockTime tx := by
  have outputs := @checkOutputs_ne_crash tx node.checkEnv 0 tx.vout
  have prevouts := @checkPrevouts_ne_crash tx
  unfold TransactionReadsPast
  rw [← checkFiltered_eq_crash, basicChecks_iff]
  simp only [checkTransaction, bind_error_unit, rejectIf_eq_crash, rejectIf_eq_ok, dos, outputs,
    prevouts, reduceCtorEq, and_false, false_or, decide_eq_false_iff_not, not_lt,
    Bool.not_eq_eq_eq_not, Bool.not_false, decide_eq_true_eq, gt_iff_lt, and_assoc]

theorem checkTransaction_eq_ok :
    checkTransaction node.checkEnv tx nBlockTime = .ok () ↔
      ¬ node.TransactionReadsPast nBlockTime tx ∧ ¬ node.TransactionRefused nBlockTime tx := by
  have split : checkTransaction node.checkEnv tx nBlockTime = .ok () ↔
      node.BasicChecks tx ∧ checkFiltered node.checkEnv tx nBlockTime = .ok () := by
    rw [basicChecks_iff]
    simp only [checkTransaction, bind_ok_unit, rejectIf_eq_ok, decide_eq_false_iff_not, not_lt,
      Bool.not_eq_eq_eq_not, Bool.not_false, decide_eq_true_eq, gt_iff_lt, and_assoc]
  rw [split, checkFiltered_eq_ok]
  unfold TransactionReadsPast TransactionRefused
  tauto

theorem checkTransactions_eq_crash {vtx : List CTransaction} :
    checkTransactions node.checkEnv nBlockTime vtx = .error .crash ↔
      BadBeforeStop (node.TransactionReadsPast nBlockTime) (node.TransactionRefused nBlockTime)
        vtx := by
  induction vtx with
  | nil => simp [checkTransactions]
  | cons tx vtx ih =>
    rw [badBeforeStop_cons, ← ih]
    simp only [checkTransactions, bind_error_unit, checkTransaction_eq_crash,
      checkTransaction_eq_ok]
    tauto

/-! ## IsBlockPayeeValid -/

theorem refusesDevFee_eq_none {env : RewardEnv} {vout : List CTxOut} {devFeeFund : Int} :
    refusesDevFee env vout devFeeFund = none ↔ 0 < devFeeFund ∧ vout.length ≤ 2 := by
  unfold refusesDevFee
  split
  · rename_i positive
    simp [positive]
  · rename_i nonpositive
    simp [nonpositive]

/-- The payees of a block read past its outputs where the dev fee is due. -/
theorem blockPayees_eq_none {env : RewardEnv} {payees : CMasternodeBlockPayees} :
    payees.isTransactionValid env tx = none ↔
      ∃ devFeeFund nReward, DevFeeDue env payees devFeeFund nReward ∧ tx.vout.length ≤ 2 := by
  constructor
  · intro past
    obtain ⟨nReward, reward, -⟩ := env.exists_blockValue (payees.nBlockHeight - 1)
    unfold CMasternodeBlockPayees.isTransactionValid at past
    by_cases unpaid : (selectSignatures payees.vecPayments).size = 0
    · simp only [if_pos unpaid, reduceCtorEq] at past
    simp only [if_neg unpaid, reward, Option.bind_some] at past
    by_cases update : env.pastUpdate = true
    · obtain ⟨devFeeFund, fee, -⟩ := env.exists_devFeeValue update (payees.nBlockHeight - 1)
      simp only [update, if_true, fee, Option.bind_some, Option.map_eq_none_iff,
        refusesDevFee_eq_none] at past
      refine ⟨devFeeFund, nReward, ⟨update, reward, fee, past.1, ?_⟩, past.2⟩
      by_contra few
      push Not at few
      exact unpaid ((selectSignatures_size _).mpr few)
    · simp only [update, if_false, Bool.false_eq_true] at past
      split at past <;> cases past
  · rintro ⟨devFeeFund, nReward, due, short⟩
    rw [due.isTransactionValid_eq, Option.map_eq_none_iff]
    exact List.getElem?_eq_none short

theorem isBlockPayeeValid_eq_none :
    isBlockPayeeValid node.rewards node.isSynced block nBlockHeight = none ↔
      node.PayeeReadsPast block nBlockHeight := by
  unfold isBlockPayeeValid PayeeReadsPast
  cases node.isSynced with
  | false => simp
  | true =>
    simp only [Bool.not_true, Bool.false_eq_true, if_false, true_and]
    cases paying : payingTransaction node.rewards.params block nBlockHeight with
    | none => simp
    | some txNew =>
      simp only [Option.bind_some, Option.map_eq_none_iff, isTransactionValid, reduceCtorEq,
        false_or, Option.some.injEq]
      cases found : node.rewards.payments.mapMasternodeBlocks.lookup nBlockHeight with
      | none => simp
      | some payees =>
        simp only [blockPayees_eq_none, Option.some.injEq]
        constructor
        · rintro ⟨devFeeFund, nReward, due, short⟩
          exact ⟨txNew, payees, devFeeFund, nReward, rfl, rfl, due, short⟩
        · rintro ⟨_, _, devFeeFund, nReward, rfl, rfl, due, short⟩
          exact ⟨devFeeFund, nReward, due, short⟩

theorem isBlockPayeeValid_eq_false :
    isBlockPayeeValid node.rewards node.isSynced block nBlockHeight = some false ↔
      node.PayeeRefused block nBlockHeight := by
  unfold isBlockPayeeValid PayeeRefused
  cases node.isSynced with
  | false => simp
  | true =>
    cases paying : payingTransaction node.rewards.params block nBlockHeight with
    | none => simp
    | some txNew =>
      simp only [Option.bind_some, Option.some.injEq, exists_eq_left']
      cases isTransactionValid node.rewards txNew nBlockHeight with
      | none => simp
      | some valid => cases valid <;> simp

/-! ## CheckBlock -/

variable {mapBlockIndex : BlockMap} {chainActive : CChain} {fCheckMerkleRoot : Bool}

theorem checkGeneration_eq_crash :
    checkGeneration block = .error .crash ↔ GenerationReadsPast block := by
  unfold checkGeneration GenerationReadsPast
  cases hvtx : block.vtx with
  | nil => simp [dos]
  | cons coinBase vtx =>
    cases stake : block.isProofOfStake with
    | false => simp [bind_error_unit, dos]
    | true =>
      simp only [if_true, bind_error_unit, rejectIf_eq_crash, rejectIf_eq_ok, dos, reduceCtorEq,
        and_false, false_or, Bool.not_eq_eq_eq_not, Bool.not_false, true_and, List.cons.injEq]
      simp only [bind_error, orCrash_eq_crash, rejectIf_eq_crash, reduceCtorEq, and_false,
        exists_false, or_false, List.head?_eq_none_iff]
      constructor
      · rintro ⟨first, others, empty⟩
        exact ⟨coinBase, vtx, ⟨rfl, rfl⟩, first, others, empty⟩
      · rintro ⟨_, _, ⟨rfl, rfl⟩, first, others, empty⟩
        exact ⟨first, others, empty⟩

theorem checkBlockPayee_of_checked (checked : node.PayeeChecked mapBlockIndex chainActive block) :
    checkBlockPayee node.checkEnv mapBlockIndex chainActive block = (do
      let valid ← orCrash (isBlockPayeeValid node.rewards node.isSynced block
        (heightByParent mapBlockIndex block))
      rejectIf (!valid) (dos 0 "bad-cb-payee")) := by
  obtain ⟨hasTip, known, synced⟩ := checked
  obtain ⟨tip, found⟩ := Option.isSome_iff_exists.mp hasTip
  unfold checkBlockPayee
  simp only [found]
  refine if_neg ?_
  rintro (zero | download)
  · exact known zero
  · exact Bool.false_ne_true (synced.symm.trans download)

theorem checkBlockPayee_of_not_checked
    (unchecked : ¬ node.PayeeChecked mapBlockIndex chainActive block) :
    checkBlockPayee node.checkEnv mapBlockIndex chainActive block = .ok () := by
  unfold checkBlockPayee
  cases found : chainActive.tip with
  | none => rfl
  | some tip =>
    refine if_pos ?_
    by_contra reached
    push Not at reached
    exact unchecked ⟨by rw [found]; rfl, reached.1, Bool.eq_false_iff.mpr reached.2⟩

theorem checkBlockPayee_eq_crash :
    checkBlockPayee node.checkEnv mapBlockIndex chainActive block = .error .crash ↔
      node.PayeeChecked mapBlockIndex chainActive block ∧
        node.PayeeReadsPast block (heightByParent mapBlockIndex block) := by
  rw [← isBlockPayeeValid_eq_none]
  by_cases checked : node.PayeeChecked mapBlockIndex chainActive block
  · rw [checkBlockPayee_of_checked checked]
    simp [bind_error, dos, checked]
  · rw [checkBlockPayee_of_not_checked checked]
    simp [checked]

theorem checkBlockPayee_eq_ok :
    checkBlockPayee node.checkEnv mapBlockIndex chainActive block = .ok () ↔
      ¬ (node.PayeeChecked mapBlockIndex chainActive block ∧
        (node.PayeeReadsPast block (heightByParent mapBlockIndex block) ∨
          node.PayeeRefused block (heightByParent mapBlockIndex block))) := by
  rw [← isBlockPayeeValid_eq_none, ← isBlockPayeeValid_eq_false]
  by_cases checked : node.PayeeChecked mapBlockIndex chainActive block
  · rw [checkBlockPayee_of_checked checked]
    simp only [bind_ok, orCrash_eq_ok, rejectIf_eq_ok, checked, true_and]
    cases isBlockPayeeValid node.rewards node.isSynced block
        (heightByParent mapBlockIndex block) with
    | none => simp
    | some valid => cases valid <;> simp
  · rw [checkBlockPayee_of_not_checked checked]
    simp [checked]

theorem checkBlock_eq_crash :
    checkBlock node.checkEnv mapBlockIndex chainActive block fCheckMerkleRoot = .error .crash ↔
      node.BlockReadsPast mapBlockIndex chainActive block fCheckMerkleRoot := by
  have header : checkBlockHeader node.checkEnv block block.isProofOfWork ≠ .error .crash := by
    simp [checkBlockHeader, bind_error_unit]
  have merkle : checkMerkleRoot node.checkEnv block fCheckMerkleRoot ≠ .error .crash := by
    simp [checkMerkleRoot, bind_error_unit]
  have locked : checkLockedInputs node.checkEnv block ≠ .error .crash := by
    simp [checkLockedInputs, dos]
  have checks : node.BlockChecks block fCheckMerkleRoot ↔
      checkBlockHeader node.checkEnv block block.isProofOfWork = .ok () ∧
        block.getBlockTime ≤
          node.base.getAdjustedTime + (if block.isProofOfStake then 180 else 7200) ∧
        checkMerkleRoot node.checkEnv block fCheckMerkleRoot = .ok () ∧
        (block.vtx.isEmpty || block.vtx.length > MAX_BLOCK_SIZE ||
          block.getSerializeSize > MAX_BLOCK_SIZE) = false :=
    ⟨fun ⟨a, b, c, d⟩ => ⟨a, b, c, d⟩, fun ⟨a, b, c, d⟩ => ⟨a, b, c, d⟩⟩
  have time : node.checkEnv.getAdjustedTime = node.base.getAdjustedTime := rfl
  unfold BlockReadsPast
  simp only
  rw [checks, ← checkGeneration_eq_crash, ← checkBlockPayee_eq_crash, ← checkBlockPayee_eq_ok,
    ← checkTransactions_eq_crash]
  simp only [checkBlock, bind_error_unit, rejectIf_eq_crash, rejectIf_eq_ok, dos, header, merkle,
    locked, reduceCtorEq, and_false, false_or, or_false, decide_eq_false_iff_not, not_lt, time,
    gt_iff_lt, and_assoc]

/-! ## CheckProofOfStake -/

theorem checkKernel_ne_crash (env : StakeEnv) (prevout : COutPoint) (nValueIn : Int)
    (hashBlock : UInt256) : checkKernel env block prevout nValueIn hashBlock ≠ .error .crash := by
  unfold checkKernel
  repeat' split
  all_goals simp

theorem checkProofOfStake_eq_crash (stake : block.isProofOfStake = true) :
    checkProofOfStake node.stake block = .error .crash ↔ node.StakeReadsPast block := by
  obtain ⟨coinBase, tx, vtx, hvtx, coinStake⟩ : ∃ coinBase tx vtx,
      block.vtx = coinBase :: tx :: vtx ∧ tx.isCoinStake = true := by
    unfold CBlock.isProofOfStake at stake
    split at stake
    · exact ⟨_, _, _, by assumption, stake⟩
    · cases stake
  obtain ⟨txin, vin, hvin⟩ : ∃ txin vin, tx.vin = txin :: vin := by
    unfold CTransaction.isCoinStake at coinStake
    split at coinStake
    · exact ⟨_, _, by assumption⟩
    · cases coinStake
  have second : block.vtx[1]? = some tx := by rw [hvtx]; rfl
  have first : tx.vin[0]? = some txin := by rw [hvin]; rfl
  have condition : node.StakeReadsPast block ↔ ∃ txPrev hashBlock,
      getTransaction node.stake.source node.stake.chainActive txin.prevout.hash true =
        some (txPrev, hashBlock) ∧ txPrev.vout.length ≤ txin.prevout.n.toNat := by
    constructor
    · rintro ⟨-, tx', txin', txPrev, hashBlock, second', first', found, short⟩
      obtain rfl := Option.some.inj (second.symm.trans second')
      obtain rfl := Option.some.inj (first.symm.trans first')
      exact ⟨txPrev, hashBlock, found, short⟩
    · rintro ⟨txPrev, hashBlock, found, short⟩
      exact ⟨stake, tx, txin, txPrev, hashBlock, second, first, found, short⟩
  rw [condition]
  unfold checkProofOfStake
  rw [second, bind_error, orCrash_eq_crash]
  simp only [reduceCtorEq, orCrash_eq_ok, Option.some.injEq, exists_eq_left', false_or]
  rw [bind_error_unit, coinStake]
  simp only [Bool.not_true, rejectIf_eq_crash, rejectIf_eq_ok, Bool.false_eq_true, false_and,
    false_or, true_and]
  rw [first, bind_error]
  simp only [orCrash_eq_crash, reduceCtorEq, orCrash_eq_ok, Option.some.injEq, exists_eq_left',
    false_or]
  cases found : getTransaction node.stake.source node.stake.chainActive txin.prevout.hash true with
  | none => simp
  | some entry =>
    obtain ⟨txPrev, hashBlock⟩ := entry
    simp only [Option.some.injEq, Prod.mk.injEq, bind_error, orCrash_eq_crash,
      List.getElem?_eq_none_iff, rejectIf_eq_crash, checkKernel_ne_crash, reduceCtorEq, and_false,
      exists_false, or_false]
    constructor
    · intro short
      exact ⟨txPrev, hashBlock, ⟨rfl, rfl⟩, short⟩
    · rintro ⟨_, _, ⟨rfl, rfl⟩, short⟩
      exact short

end NodeChecks

/-- Each function indexes within bounds exactly where its condition is not met. `CheckProofOfStake`
is called for proof-of-stake blocks only (`main.cpp:3334`). -/
theorem indexesWithin_iff (node : NodeChecks) (tx : CTransaction) (nBlockTime : Int)
    (block : CBlock) (nBlockHeight : Int) (mapBlockIndex : BlockMap) (chainActive : CChain)
    (fCheckMerkleRoot : Bool) :
    (node.filter.checkTxFilter tx nBlockTime ≠ none ↔ ¬ node.filter.ReadsPast nBlockTime tx) ∧
    (checkTransaction node.checkEnv tx nBlockTime ≠ .error .crash ↔
      ¬ node.TransactionReadsPast nBlockTime tx) ∧
    (isBlockPayeeValid node.rewards node.isSynced block nBlockHeight ≠ none ↔
      ¬ node.PayeeReadsPast block nBlockHeight) ∧
    (checkBlock node.checkEnv mapBlockIndex chainActive block fCheckMerkleRoot ≠ .error .crash ↔
      ¬ node.BlockReadsPast mapBlockIndex chainActive block fCheckMerkleRoot) ∧
    (¬ (block.isProofOfStake = true ∧ checkProofOfStake node.stake block = .error .crash) ↔
      ¬ node.StakeReadsPast block) := by
  refine ⟨not_congr FilterEnv.checkTxFilter_eq_none, not_congr NodeChecks.checkTransaction_eq_crash,
    not_congr NodeChecks.isBlockPayeeValid_eq_none, not_congr NodeChecks.checkBlock_eq_crash,
    not_congr ?_⟩
  constructor
  · rintro ⟨stake, crash⟩
    exact (NodeChecks.checkProofOfStake_eq_crash stake).mp crash
  · intro past
    exact ⟨past.1, (NodeChecks.checkProofOfStake_eq_crash past.1).mpr past⟩

/-! ## A proof-of-stake block without coinbase outputs -/

def lenientNode : NodeChecks where
  base := lenientEnv.toCheckEnv
  rewards := dueEnv
  isSynced := true
  filter := emptyFilter
  stake :=
    { params := mainParams, mapBlockIndex := ∅, chainActive := ⟨[]⟩, source := emptySource
      readBlockAt := fun _ => none, verifyScript := fun _ _ _ _ => true, hash := fun _ => 0 }

def bareCoinbaseBlock : CBlock where
  nVersion := 4
  hashPrevBlock := 0
  hashMerkleRoot := 0
  nTime := 1600000000
  nBits := 0
  nNonce := 0
  hash := 1
  vtx :=
    [{ CTransaction.empty with vin := [{ prevout := COutPoint.null, scriptSig := [0, 0] }] },
      { CTransaction.empty with
        vin := [{ prevout := ⟨7, 0⟩ }]
        vout := [⟨0, []⟩, ⟨COIN, [0x51]⟩] }]

/-- `CheckBlock` reads the first output of a coinbase that has none. -/
theorem bare_coinbase_read :
    ¬ ∀ (node : NodeChecks) (tx : CTransaction) (nBlockTime : Int) (block : CBlock)
      (nBlockHeight : Int) (mapBlockIndex : BlockMap) (chainActive : CChain)
      (fCheckMerkleRoot : Bool),
      node.filter.checkTxFilter tx nBlockTime ≠ none ∧
      checkTransaction node.checkEnv tx nBlockTime ≠ .error .crash ∧
      isBlockPayeeValid node.rewards node.isSynced block nBlockHeight ≠ none ∧
      checkBlock node.checkEnv mapBlockIndex chainActive block fCheckMerkleRoot ≠ .error .crash ∧
      ¬ (block.isProofOfStake = true ∧ checkProofOfStake node.stake block = .error .crash) := by
  intro claim
  obtain ⟨-, -, -, within, -⟩ := claim lenientNode CTransaction.empty 0 bareCoinbaseBlock 0 ∅ ⟨[]⟩
    true
  exact within rfl

end Esbcoin
