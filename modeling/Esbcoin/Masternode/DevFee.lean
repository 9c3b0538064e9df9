import Esbcoin.Masternode.BlockPayees

namespace Esbcoin

open Payments

/-- A payee with enough votes. -/
def Payments.CMasternodePayee.Qualified (payee : CMasternodePayee) : Prop :=
  MNPAYMENTS_SIGNATURES_REQUIRED ≤ payee.nVotes

instance (payee : CMasternodePayee) : Decidable payee.Qualified :=
  inferInstanceAs (Decidable (_ ≤ _))

/-- Every level with a qualified payee pays one of them. -/
def LevelsPaid (vout : List CTxOut) (required : Nat → Int) (vecPayments : List CMasternodePayee) :
    Prop :=
  ∀ payee ∈ vecPayments, payee.Qualified → ∃ paid ∈ vecPayments, paid.Qualified ∧
    paid.mnlevel = payee.mnlevel ∧ isPaid vout (required payee.mnlevel) paid = true

section Validator

variable {vout : List CTxOut} {required : Nat → Int} {vecPayments : List CMasternodePayee}

theorem addSignature_lookup (m : AssocMap Nat Int) (payee : CMasternodePayee) (mnlevel : Nat) :
    ((addSignature m payee).lookup mnlevel).isSome = true ↔
      (m.lookup mnlevel).isSome = true ∨ (payee.Qualified ∧ payee.mnlevel = mnlevel) := by
  unfold addSignature CMasternodePayee.Qualified
  by_cases few : payee.nVotes < MNPAYMENTS_SIGNATURES_REQUIRED
  · rw [if_pos few]
    simp only [not_le.mpr few, false_and, or_false]
  rw [if_neg few]
  simp only [not_lt.mp few, true_and]
  by_cases equal : payee.mnlevel = mnlevel
  · subst equal
    have inserted : ∀ v, ((m.insert payee.mnlevel v).lookup payee.mnlevel).isSome = true := by
      intro v
      rw [AList.lookup_insert]
      rfl
    simp only [or_true, iff_true]
    cases old : m.lookup payee.mnlevel with
    | none => exact inserted _
    | some nVotes =>
      simp only
      split
      · exact inserted _
      · rw [old]
        rfl
  · have other : ∀ v, (m.insert payee.mnlevel v).lookup mnlevel = m.lookup mnlevel := fun v =>
      AList.lookup_insert_ne (Ne.symm equal)
    simp only [equal, or_false]
    cases m.lookup payee.mnlevel with
    | none => simp only [other]
    | some nVotes =>
      simp only
      split
      · rw [other]
      · exact Iff.rfl

theorem foldl_addSignature_lookup (m : AssocMap Nat Int) (vecPayments : List CMasternodePayee)
    (mnlevel : Nat) :
    ((vecPayments.foldl addSignature m).lookup mnlevel).isSome = true ↔
      (m.lookup mnlevel).isSome = true ∨
        ∃ payee ∈ vecPayments, payee.Qualified ∧ payee.mnlevel = mnlevel := by
  induction vecPayments generalizing m with
  | nil => simp
  | cons payee vecPayments ih =>
    rw [List.foldl_cons, ih, addSignature_lookup]
    simp only [List.mem_cons, exists_eq_or_imp, or_assoc]

/-- The levels that are selected are those with a qualified payee. -/
theorem selectSignatures_lookup (vecPayments : List CMasternodePayee) (mnlevel : Nat) :
    ((selectSignatures vecPayments).lookup mnlevel).isSome = true ↔
      ∃ payee ∈ vecPayments, payee.Qualified ∧ payee.mnlevel = mnlevel := by
  rw [selectSignatures, foldl_addSignature_lookup, AList.lookup_empty]
  simp

theorem selectSignatures_size (vecPayments : List CMasternodePayee) :
    (selectSignatures vecPayments).size = 0 ↔ ∀ payee ∈ vecPayments, ¬ payee.Qualified := by
  rw [AssocMap.size_eq_zero_iff]
  constructor
  · intro none payee member qualified
    have found := (selectSignatures_lookup vecPayments payee.mnlevel).mpr
      ⟨payee, member, qualified, rfl⟩
    rw [none payee.mnlevel] at found
    cases found
  intro few mnlevel
  cases found : (selectSignatures vecPayments).lookup mnlevel with
  | none => rfl
  | some nVotes =>
    obtain ⟨payee, member, qualified, -⟩ := (selectSignatures_lookup vecPayments mnlevel).mp
      (by rw [found]; rfl)
    exact absurd qualified (few payee member)

/-- The loop over the payees, from where it stands. -/
theorem payeesPaid_from (m : AssocMap Nat Int) (rest : List CMasternodePayee)
    (unpaid : m.size ≠ 0) :
    payeesPaid vout required m rest = true ↔
      ∀ mnlevel, (m.lookup mnlevel).isSome = true → ∃ paid ∈ rest, paid.Qualified ∧
        paid.mnlevel = mnlevel ∧ isPaid vout (required mnlevel) paid = true := by
  induction rest generalizing m with
  | nil =>
    rw [payeesPaid]
    constructor
    · intro impossible
      cases impossible
    intro all
    refine absurd ((AssocMap.size_eq_zero_iff m).mpr fun mnlevel => ?_) unpaid
    cases found : m.lookup mnlevel with
    | none => rfl
    | some nVotes =>
      obtain ⟨paid, member, -⟩ := all mnlevel (by rw [found]; rfl)
      cases member
  | cons payee rest ih =>
    rw [payeesPaid]
    simp only [List.mem_cons, exists_eq_or_imp]
    by_cases few : payee.nVotes < MNPAYMENTS_SIGNATURES_REQUIRED
    · rw [if_pos few, ih m unpaid]
      have notQualified : ¬ payee.Qualified := not_le.mpr few
      simp only [notQualified, false_and, false_or]
    rw [if_neg few]
    have qualified : payee.Qualified := not_lt.mp few
    by_cases paid : isPaid vout (required payee.mnlevel) payee = true
    · rw [if_pos paid]
      have erased : ∀ mnlevel, (AList.lookup mnlevel (m.erase payee.mnlevel)).isSome = true ↔
          mnlevel ≠ payee.mnlevel ∧ (m.lookup mnlevel).isSome = true := by
        intro mnlevel
        rw [AssocMap.lookup_erase_eq]
        by_cases equal : mnlevel = payee.mnlevel
        · simp [equal]
        · simp [equal]
      have here : ∀ mnlevel, mnlevel = payee.mnlevel →
          payee.Qualified ∧ payee.mnlevel = mnlevel ∧
            isPaid vout (required mnlevel) payee = true := by
        rintro mnlevel rfl
        exact ⟨qualified, rfl, paid⟩
      by_cases done : AssocMap.size (m.erase payee.mnlevel) = 0
      · rw [if_pos done]
        simp only [true_iff]
        intro mnlevel found
        by_cases equal : mnlevel = payee.mnlevel
        · exact Or.inl (here mnlevel equal)
        · have some := (erased mnlevel).mpr ⟨equal, found⟩
          rw [(AssocMap.size_eq_zero_iff _).mp done mnlevel] at some
          cases some
      rw [if_neg done, ih _ done]
      refine forall_congr' fun mnlevel => ?_
      rw [erased]
      constructor
      · intro rest found
        by_cases equal : mnlevel = payee.mnlevel
        · exact Or.inl (here mnlevel equal)
        · exact Or.inr (rest ⟨equal, found⟩)
      rintro all ⟨other, found⟩
      rcases all found with ⟨-, same, -⟩ | rest
      · exact absurd same.symm other
      · exact rest
    · rw [if_neg paid, ih m unpaid]
      refine forall_congr' fun mnlevel => forall_congr' fun _ => ?_
      constructor
      · exact Or.inr
      · rintro (⟨-, rfl, here⟩ | rest)
        · exact absurd here paid
        · exact rest

/-- The loop over the payees accepts where every level pays. -/
theorem payeesPaid_iff (qualified : ∃ payee ∈ vecPayments, payee.Qualified) :
    payeesPaid vout required (selectSignatures vecPayments) vecPayments = true ↔
      LevelsPaid vout required vecPayments := by
  have some : (selectSignatures vecPayments).size ≠ 0 := by
    rw [Ne, selectSignatures_size]
    push Not
    exact qualified
  rw [payeesPaid_from _ _ some]
  simp only [selectSignatures_lookup, LevelsPaid]
  constructor
  · intro all payee member enough
    exact all payee.mnlevel ⟨payee, member, enough, rfl⟩
  · rintro all mnlevel ⟨payee, member, enough, rfl⟩
    exact all payee member enough

end Validator

/-! ## Past the reward update -/

section Due

variable {env : RewardEnv}

theorem RewardEnv.blockValue_of_past (past : env.pastUpdate = true) (nHeight : Int) :
    env.blockValue nHeight = some (blockSubsidy env.params nHeight) := by
  exact if_pos (of_decide_eq_true past)

theorem RewardEnv.devFeeValue_of_past (past : env.pastUpdate = true) (nHeight : Int) :
    env.devFeeValue nHeight = some (if nHeight.tmod nDevFeeCycle = 0 then
      devFeeOf (blockSubsidy env.params nHeight) else 0) := by
  have value := env.blockValue_of_past past nHeight
  unfold blockValue at value
  have past' : env.chain.chainActive.height > CONSENSUS_FORK_REWARD_UPDATE_BLOCK :=
    of_decide_eq_true past
  unfold devFeeValue getDevFeeValue
  by_cases cycle : nHeight.tmod nDevFeeCycle = 0
  · rw [if_pos ⟨cycle, past'⟩, value, if_pos cycle]
    rfl
  · rw [if_neg fun both => cycle both.1, if_neg cycle]

/-- The dev fee is due at a height: past the reward update, in a dev-fee cycle, with qualified
payees. -/
structure DevFeeDue (env : RewardEnv) (block : CMasternodeBlockPayees)
    (devFeeFund nReward : Int) : Prop where
  past : env.pastUpdate = true
  reward : env.blockValue (block.nBlockHeight - 1) = some nReward
  fee : env.devFeeValue (block.nBlockHeight - 1) = some devFeeFund
  positive : 0 < devFeeFund
  qualified : ∃ payee ∈ block.vecPayments, payee.Qualified

variable {block : CMasternodeBlockPayees} {devFeeFund nReward : Int}

theorem DevFeeDue.isTransactionValid_eq (due : DevFeeDue env block devFeeFund nReward)
    (txNew : CTransaction) :
    block.isTransactionValid env txNew = (txNew.vout[2]?).map (fun out =>
      !(!env.paysDevFee out && out.nValue != devFeeFund) &&
        payeesPaid txNew.vout (env.masternodePayment · nReward)
          (selectSignatures block.vecPayments) block.vecPayments) := by
  have some : (selectSignatures block.vecPayments).size ≠ 0 := by
    rw [Ne, selectSignatures_size]
    push Not
    exact due.qualified
  simp only [CMasternodeBlockPayees.isTransactionValid, if_neg some, due.reward, due.fee,
    Option.bind_some, due.past, if_true, refusesDevFee, if_pos due.positive, Option.map_map]
  rfl

/-- Where the dev fee is due, only the dev fee is accepted at its place exactly if the third output
is the dev fee, or is wrong in both address and amount, or some level is not paid. -/
theorem devFee_enforced_iff (due : DevFeeDue env block devFeeFund nReward)
    (txNew : CTransaction) :
    (block.isTransactionValid env txNew ≠ none ∧
        (block.isTransactionValid env txNew = some true →
          txNew.vout[2]? = some ⟨devFeeFund, env.devFeeScript⟩)) ↔
      ∃ out, txNew.vout[2]? = some out ∧
        (out = ⟨devFeeFund, env.devFeeScript⟩ ∨
          (env.paysDevFee out = false ∧ out.nValue ≠ devFeeFund) ∨
          ¬ LevelsPaid txNew.vout (env.masternodePayment · nReward) block.vecPayments) := by
  rw [due.isTransactionValid_eq, ← payeesPaid_iff due.qualified]
  cases txNew.vout[2]? with
  | none => simp
  | some out =>
    simp only [Option.map_some, ne_eq, reduceCtorEq, not_false_eq_true, true_and,
      Option.some.injEq, exists_eq_left']
    generalize payeesPaid _ _ _ _ = paid
    by_cases amount : out.nValue = devFeeFund
    · cases paid <;> simp [amount]
    · cases paid <;> cases env.paysDevFee out <;> simp [amount]

end Due

/-! ## A node at a height -/

/-- A node of the main network whose tip has height `n`. -/
def sampleRewardEnv (n : Nat) (small : n + 1 < 2 ^ 256) (devFee : Int)
    (payments : CMasternodePayments)
    (filed : ∀ nBlockHeight block, payments.mapMasternodeBlocks.lookup nBlockHeight = some block →
      block.nBlockHeight = nBlockHeight) : RewardEnv where
  sha _ := 0
  paidSha _ _ := 0
  chain := straightLinked (n + 1) small
  mapCacheBlockHashes := ∅
  adjustedTime := 0
  paymentEnforcement := true
  winnerMinimumAge := 0
  locked := true
  getInputAge _ := 0
  cachedInputAge _ := (0, 0)
  payments
  sorter := .stable
  mns := ⟨[], List.nodup_nil⟩
  params := mainParams
  devFee
  hash160 _ := []
  hasTip := by
    have tip := straightMap_deref small (show n < n + 1 by omega)
    unfold LinkedChain.tip straightLinked
    rw [tip]
    rfl
  filed

theorem sampleRewardEnv_height (n : Nat) (small : n + 1 < 2 ^ 256) (devFee : Int)
    (payments : CMasternodePayments) (filed) :
    (sampleRewardEnv n small devFee payments filed).chainHeight = n := by
  have height := straightChain_height (n + 1)
  unfold RanksEnv.chainHeight sampleRewardEnv straightLinked
  simp only [height]
  omega

theorem CMasternodePayments.filed_init (nBlockHeight : Int) (block : CMasternodeBlockPayees)
    (found : CMasternodePayments.init.mapMasternodeBlocks.lookup nBlockHeight = some block) :
    block.nBlockHeight = nBlockHeight := by
  cases found

def dueEnv : RewardEnv := sampleRewardEnv 690480 (by decide) 0 .init CMasternodePayments.filed_init

/-- One payee of level 1 for the height after the tip of `dueEnv`. -/
def dueBlock : CMasternodeBlockPayees where
  nBlockHeight := 690481
  vecPayments := [⟨[0x51], 1, 6⟩]
  distinct := by decide

theorem dueEnv_past : dueEnv.pastUpdate = true := by
  unfold RewardEnv.pastUpdate dueEnv
  rw [sampleRewardEnv_height]
  decide

theorem dueEnv_due : DevFeeDue dueEnv dueBlock (12600 * COIN) (25 * COIN) where
  past := dueEnv_past
  reward := by
    rw [RewardEnv.blockValue_of_past dueEnv_past]
    decide
  fee := by
    rw [RewardEnv.devFeeValue_of_past dueEnv_past]
    decide
  positive := by decide
  qualified := ⟨_, List.mem_cons_self, by decide⟩

def dueCoinStake (out : CTxOut) : CTransaction :=
  { CTransaction.empty with
    vout := [⟨0, []⟩, ⟨100 * COIN, [0x52]⟩, out, ⟨3 * COIN, [0x51]⟩] }

theorem devFee_enforced_due :
    dueBlock.isTransactionValid dueEnv (dueCoinStake ⟨12600 * COIN, dueEnv.devFeeScript⟩) ≠ none ∧
      (dueBlock.isTransactionValid dueEnv (dueCoinStake ⟨12600 * COIN, dueEnv.devFeeScript⟩) =
          some true →
        (dueCoinStake ⟨12600 * COIN, dueEnv.devFeeScript⟩).vout[2]? =
          some ⟨12600 * COIN, dueEnv.devFeeScript⟩) :=
  (devFee_enforced_iff dueEnv_due _).mpr ⟨_, rfl, Or.inl rfl⟩

/-- One satoshi to the dev-fee address is accepted in place of the dev fee. -/
theorem devFee_wrong_amount_accepted :
    ¬ ∀ env block devFeeFund nReward, DevFeeDue env block devFeeFund nReward →
      ∀ txNew : CTransaction,
        block.isTransactionValid env txNew ≠ none ∧
          (block.isTransactionValid env txNew = some true →
            txNew.vout[2]? = some ⟨devFeeFund, env.devFeeScript⟩) := by
  intro claim
  have paid : LevelsPaid (dueCoinStake ⟨1, dueEnv.devFeeScript⟩).vout
      (dueEnv.masternodePayment · (25 * COIN)) dueBlock.vecPayments := by
    intro payee member _
    have protocol : activeProtocol dueEnv.chainHeight = CONSENSUS_FORK_REWARD_UPDATE_PROTOCOL := by
      exact if_pos (of_decide_eq_true dueEnv_past)
    obtain rfl := List.mem_singleton.mp member
    refine ⟨_, List.mem_cons_self, by decide, rfl, ?_⟩
    simp only [isPaid, RewardEnv.masternodePayment, protocol, dueCoinStake, List.any_cons]
    have enough : getMasternodePayment CONSENSUS_FORK_REWARD_UPDATE_PROTOCOL 1 (25 * COIN) ≤
        3 * COIN := by decide +kernel
    simp [enough]
  have accepted : dueBlock.isTransactionValid dueEnv (dueCoinStake ⟨1, dueEnv.devFeeScript⟩) =
      some true := by
    obtain ⟨address, found⟩ : ∃ address,
        devFeeAddress dueEnv.params dueEnv.pastUpdate = some address := by
      rw [dueEnv_past]
      exact ⟨_, rfl⟩
    rw [dueEnv_due.isTransactionValid_eq, (payeesPaid_iff dueEnv_due.qualified).mpr paid]
    simp [dueCoinStake, dueEnv.paysDevFee_devFeeScript found]
  have third := (claim _ _ _ _ dueEnv_due _).2 accepted
  have amount := congrArg CTxOut.nValue (Option.some.inj third)
  revert amount
  decide

end Esbcoin
