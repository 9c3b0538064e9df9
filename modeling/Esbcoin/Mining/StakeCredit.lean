import Esbcoin.Mining.TemplateShape

/-!
# What a coinstake pays out

Where the value goes that `CWallet::CreateCoinStake` (`src/wallet.cpp:2335-2506`) adds up: the
stake, the value of the block, the fees and, past the reward update, the dev fee.
-/

namespace Esbcoin

variable {env : RewardEnv} {nFees : Int}

/-- What a reward is divided into: the dev-fee output and the rest are not negative. -/
theorem devFeeOutput_nonneg {reward blockReward : Int} {devFeeOut : List CTxOut}
    (nonneg : 0 ≤ reward) (made : devFeeOutput env reward = some (devFeeOut, blockReward)) :
    0 ≤ blockReward ∧ ∀ out ∈ devFeeOut, 0 ≤ out.nValue := by
  unfold devFeeOutput at made
  cases past : env.pastUpdate with
  | true =>
    rw [past, if_pos rfl] at made
    obtain ⟨devFeeFund, fee, fund_nonneg⟩ := RewardEnv.exists_devFeeValue past env.chainHeight
    rw [fee, Option.map_some] at made
    by_cases some : devFeeFund > 0
    · rw [if_pos some] at made
      obtain ⟨rfl, rfl⟩ := Prod.mk.inj (Option.some.inj made)
      simp [nonneg, fund_nonneg]
    · rw [if_neg some] at made
      obtain ⟨rfl, rfl⟩ := Prod.mk.inj (Option.some.inj made)
      simp [nonneg]
  | false =>
    rw [past, if_neg Bool.false_ne_true] at made
    by_cases on : env.devFee > 0
    · have bounds := RewardEnv.sporkDevFee_bounds on nonneg (le_refl reward)
      rw [if_pos on] at made
      obtain ⟨rfl, rfl⟩ := Prod.mk.inj (Option.some.inj made)
      simp only [List.forall_mem_singleton]
      omega
    · rw [if_neg on] at made
      obtain ⟨rfl, rfl⟩ := Prod.mk.inj (Option.some.inj made)
      simp [nonneg]

theorem levelOutputs_nonneg {block_value : Int} (nonneg : 0 ≤ block_value) :
    ∀ out ∈ levelOutputs env block_value, 0 ≤ out.nValue := by
  intro out member
  obtain ⟨mnlevel, -, -, -, value⟩ := mem_levelOutputs_iff.mp member
  rw [value]
  exact getMasternodePayment_nonneg nonneg

/-- The outputs pay a stake of this value: all that is minted and collected is in them, and the
stake gets what the dev fee and the masternodes leave of it. -/
structure PaysStake (env : RewardEnv) (nCredit nFees : Int) (vout : List CTxOut) : Prop where
  total : ∃ blockValue, env.blockValue env.chainHeight = some blockValue ∧
    (vout.map CTxOut.nValue).sum = nCredit + blockValue + nFees +
      if env.pastUpdate then (env.devFeeValue env.chainHeight).getD 0 else 0
  marker : vout.head? = some ⟨0, []⟩
  nonneg : ∀ out ∈ vout, 0 ≤ out.nValue
  remaining : ∃ blockValue devFeeOut blockReward scriptPubKeyOut first second,
    env.blockValue env.chainHeight = some blockValue ∧
      devFeeOutput env (blockValue + nFees) = some (devFeeOut, blockReward) ∧
      let (paid, masternodesFund) :=
        fillBlockPayee env (⟨0, []⟩ :: ⟨first, scriptPubKeyOut⟩ :: devFeeOut) blockReward
      let credit := nCredit + blockReward - masternodesFund
      vout = paid ++ second ∧
        ((second = [] ∧ first = credit) ∨
          ∃ rest, second = [⟨rest, scriptPubKeyOut⟩] ∧ first + rest = credit)

theorem paysStake_of_stakeOutputs {stake : Stake} {vout : List CTxOut} (fees : 0 ≤ nFees)
    (made : stakeOutputs env stake nFees = some vout) : PaysStake env stake.nCredit nFees vout := by
  have total := stakeOutputs_sum made
  obtain ⟨blockValue, value, made⟩ := Option.bind_eq_some_iff.mp made
  obtain ⟨⟨devFeeOut, blockReward⟩, fee, outputs⟩ := Option.map_eq_some_iff.mp made
  obtain ⟨_, value', value_nonneg⟩ := RewardEnv.exists_blockValue env env.chainHeight
  obtain rfl := Option.some.inj (value.symm.trans value')
  obtain ⟨reward_nonneg, fee_nonneg⟩ := devFeeOutput_nonneg (by omega) fee
  have shares : levelShares env blockReward ≤ blockReward := levelShares_le reward_nonneg
  have worth := stake.positive
  simp only [fillBlockPayee_eq, List.cons_append, List.nil_append, payStake_eq,
    levelOutputs_sum] at outputs
  generalize credit_eq : stake.nCredit + blockReward - levelShares env blockReward = credit
    at outputs
  obtain ⟨low, high⟩ := stake.outputValue_bounds (show 0 ≤ credit by omega)
  constructor
  · refine ⟨blockValue, value, ?_⟩
    rw [total, value, Option.getD_some]
    cases past : env.pastUpdate with
    | true =>
      rw [if_pos rfl]
      omega
    | false =>
      rw [RewardEnv.devFeeValue_of_not_past past, Option.getD_some, if_neg Bool.false_ne_true]
      omega
  · rw [← outputs]
    rfl
  · rw [← outputs]
    simp only [List.forall_mem_cons, List.forall_mem_append]
    refine ⟨le_refl _, low, ⟨fee_nonneg, levelOutputs_nonneg reward_nonneg⟩, ?_⟩
    unfold Stake.splitOutputs
    split
    · simp only [List.forall_mem_singleton]
      omega
    · simp
  · refine ⟨blockValue, devFeeOut, blockReward, stake.scriptPubKeyOut, stake.outputValue credit,
      stake.splitOutputs credit, value, fee, ?_⟩
    simp only [fillBlockPayee_eq, levelOutputs_sum, credit_eq]
    refine ⟨outputs.symm, ?_⟩
    unfold Stake.splitOutputs
    cases split : stake.splits credit with
    | true => exact Or.inr ⟨_, rfl, by omega⟩
    | false =>
      refine Or.inl ⟨rfl, ?_⟩
      rw [Stake.outputValue, split, if_neg Bool.false_ne_true]

/-- A coinstake that `CreateCoinStake` makes spends one of the wallet's coins and pays what it is
worth, with the reward and the fees, which are not negative. -/
theorem coinStake_conserves {env : MinerEnv} {tip : CBlockIndex} {wallet wallet' : StakeWallet}
    {txNew : CTransaction} {nTxNewTime : UInt32} (atTip : env.reward.chain.tip = some tip)
    (fees : 0 ≤ nFees)
    (made : createCoinStake env tip wallet nFees = some (some (txNew, nTxNewTime), wallet')) :
    ∃ coin ∈ stakeCoins env wallet, ∃ staked, coin.tx.vout[coin.n.toNat]? = some staked ∧
      txNew.prevouts = [coin.prevout] ∧ PaysStake env.reward staked.nValue nFees txNew.vout := by
  obtain ⟨kernel, nSpendable, found, coinStake⟩ := createCoinStake_some atTip made
  obtain ⟨member, staked, slot, value, -⟩ := stakeKernel_some found
  obtain ⟨-, spends, worth, outputs⟩ := coinStakeOf_some coinStake
  refine ⟨kernel.coin, member, staked, slot, spends, ?_⟩
  rw [value]
  exact paysStake_of_stakeOutputs fees outputs

/-- A stake of a thousand coins is split; a fee of one coin is collected. -/
theorem coinStake_conserves_split : ∃ tip txNew nTxNewTime wallet',
    createCoinStake stakingMiner tip ⟨2000 * COIN, some 0, [paidCoin 7], 1599999940⟩ COIN =
        some (some (txNew, nTxNewTime), wallet') ∧
      txNew.vout.length = 3 ∧ ∃ coin ∈ [paidCoin 7], ∃ staked,
        coin.tx.vout[coin.n.toNat]? = some staked ∧ txNew.prevouts = [coin.prevout] ∧
          PaysStake stakingMiner.reward staked.nValue COIN txNew.vout := by
  obtain ⟨tip, atTip⟩ := Option.isSome_iff_exists.mp stakingMiner.reward.hasTip
  have splits : givesOne (fun made => made.1.vout.length = 3)
      (stakingMiner.reward.chain.tip.bind fun tip =>
        createCoinStake stakingMiner tip ⟨2000 * COIN, some 0, [paidCoin 7], 1599999940⟩ COIN) =
      true := by decide +kernel
  have atTip' : stakingMiner.reward.chain.tip = some tip := atTip
  rw [atTip', Option.bind_some] at splits
  obtain ⟨⟨txNew, nTxNewTime⟩, wallet', made, splits⟩ := exists_of_givesOne splits
  exact ⟨tip, txNew, nTxNewTime, wallet', made, of_decide_eq_true splits,
    coinStake_conserves atTip (by decide) made⟩

end Esbcoin
