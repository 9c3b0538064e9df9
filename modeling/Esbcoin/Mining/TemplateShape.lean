import Mathlib.Data.List.MinMax
import Mathlib.Data.Prod.Lex
import Esbcoin.Masternode.CoinStake
import Esbcoin.Mining.BlockTemplate
import Esbcoin.Mining.Picked
import Esbcoin.Wallet

/-!
# The shape of a template

What the transactions of a template are: those behind the generated ones are picked from the pool
and can be connected in their order. The coinstake is made afterwards from the wallet's own set of
coins, and no check of the block follows in a proof of stake.
-/

namespace Esbcoin

open List

/-! ## What a template is made of -/

namespace CBlockTemplate

variable (template : CBlockTemplate) (fProofOfStake : Bool)

/-- The coinbase, and the coinstake of a proof of stake. -/
def generated : List CTransaction := template.vtx.take (if fProofOfStake then 2 else 1)

/-- The transactions that are not generated. -/
def included : List CTransaction := template.vtx.drop (if fProofOfStake then 2 else 1)

/-- The signature operations of the block. What is generated is not spent by the others. -/
def sigOps (tip : FlatCoins) : Nat :=
  ((template.generated fProofOfStake).map (sigOpsAt tip [])).sum +
    sumAlong (sigOpsAt tip) [] (template.included fProofOfStake)

end CBlockTemplate

variable (env : MinerEnv)

/-- The coins that `CreateCoinStake` looks at. -/
def stakeCoins (wallet : StakeWallet) : List StakeCoin :=
  match wallet.nReserveBalance with
  | none => []
  | some nReserveBalance =>
    (renewCoins env wallet (wallet.nBalance - nReserveBalance)).setStakeCoins

/-- The kernel that `CreateCoinStake` finds. -/
def stakeKernel (wallet : StakeWallet) : Option FoundKernel :=
  env.reward.chain.tip.bind fun tip => (findKernel env tip (stakeCoins env wallet)).join

/-- What the generated transactions pay where there are no fees: the value of the block, and in a
proof of stake the dev fee and the stake itself. -/
def rewardBase (wallet : StakeWallet) (fProofOfStake : Bool) : Int :=
  (env.reward.blockValue env.reward.chainHeight).getD 0 +
    if fProofOfStake then
      (env.reward.devFeeValue env.reward.chainHeight).getD 0 +
        ((stakeKernel env wallet).map FoundKernel.nCredit).getD 0
    else 0

/-- What the transactions of a template are to be. -/
structure TemplateShape (s : MinerState) (fProofOfStake : Bool) (template : CBlockTemplate) :
    Prop where
  fromPool : ∀ tx ∈ template.included fProofOfStake,
    ∃ entry, s.pool.mapTx.lookup tx.getHash = some entry ∧ entry.tx = tx
  available : ∀ earlier tx later, template.vtx = earlier ++ tx :: later → ∀ out ∈ tx.spends,
    env.pcoinsTip.coins.isUnspent out = true ∨
      ∃ parent ∈ earlier, parent.getHash = out.hash ∧ out.n.toNat < parent.vout.length
  spentOnce : (template.vtx.flatMap CTransaction.spends).Nodup
  ordered : template.vtx.Pairwise fun child parent =>
    ∀ out ∈ child.spends, out.hash ≠ parent.getHash
  size : (template.vtx.map CTransaction.getSerializeSize).sum < MAX_BLOCK_SIZE
  sigOps : template.sigOps fProofOfStake env.pcoinsTip.coins < MAX_BLOCK_SIGOPS
  fees : (((template.generated fProofOfStake).flatMap CTransaction.vout).map CTxOut.nValue).sum =
    rewardBase env s.wallet fProofOfStake +
      sumAlong (feeAt env.pcoinsTip.coins) [] (template.included fProofOfStake)

/-- What the coinstake spends is unspent at the tip and by the picked transactions, and what is
generated has room beside them. -/
structure GeneratedFits (fProofOfStake : Bool) (template : CBlockTemplate) : Prop where
  unspent : ∀ out ∈ (template.generated fProofOfStake).flatMap CTransaction.spends,
    env.pcoinsTip.coins.isUnspent out = true
  free : ∀ out ∈ (template.generated fProofOfStake).flatMap CTransaction.spends,
    ∀ tx ∈ template.included fProofOfStake, out ∉ tx.spends
  size : ((template.generated fProofOfStake).map CTransaction.getSerializeSize).sum +
    ((template.included fProofOfStake).map CTransaction.getSerializeSize).sum < MAX_BLOCK_SIZE
  sigOps : template.sigOps fProofOfStake env.pcoinsTip.coins < MAX_BLOCK_SIGOPS

/-- The generated transactions take no more than what is kept free for them: 2000 bytes and 100
signature operations. -/
def SmallGenerated (tip : FlatCoins) (generated : List CTransaction) : Prop :=
  (generated.map CTransaction.getSerializeSize).sum ≤ 2000 ∧
    (generated.map (sigOpsAt tip [])).sum ≤ 100

/-- What can be generated is small, whatever the fees, and in a proof of stake every coin of the
set is unspent at the tip and by the pool. -/
structure StateFits (s : MinerState) (scriptPubKeyIn : CScript) (fProofOfStake : Bool) :
    Prop where
  unspent : fProofOfStake = true → ∀ coin ∈ stakeCoins env s.wallet,
    env.pcoinsTip.coins.isUnspent coin.prevout = true
  free : fProofOfStake = true → ∀ coin ∈ stakeCoins env s.wallet,
    ∀ tx ∈ s.pool.transactions, coin.prevout ∉ tx.prevouts
  work : fProofOfStake = false → ∀ nFees coinBase,
    payingCoinBase env scriptPubKeyIn nFees = some coinBase →
      SmallGenerated env.pcoinsTip.coins [coinBase]
  stake : fProofOfStake = true → ∀ kernel nSpendable nFees tx,
    stakeKernel env s.wallet = some kernel →
    coinStakeOf env kernel nSpendable nFees = some (some tx) →
      SmallGenerated env.pcoinsTip.coins [stakeCoinBase env scriptPubKeyIn, tx]

/-- The generated transactions of a template. -/
inductive Generates (s : MinerState) (scriptPubKeyIn : CScript) (nFees : Int) :
    Bool → List CTransaction → Prop
  | work {coinBase : CTransaction}
      (made : payingCoinBase env scriptPubKeyIn nFees = some coinBase) :
      Generates s scriptPubKeyIn nFees false [coinBase]
  | stake {kernel : FoundKernel} {nSpendable : Int} {tx : CTransaction}
      (found : stakeKernel env s.wallet = some kernel)
      (made : coinStakeOf env kernel nSpendable nFees = some (some tx)) :
      Generates s scriptPubKeyIn nFees true [stakeCoinBase env scriptPubKeyIn, tx]

section Parts

variable {env : MinerEnv} {s s' : MinerState} {scriptPubKeyIn : CScript} {fProofOfStake : Bool}
  {template : CBlockTemplate} {tip : CBlockIndex} {nFees : Int} {generated : List CTransaction}

theorem createCoinStake_some {made : CTransaction × UInt32} {wallet wallet' : StakeWallet}
    (atTip : env.reward.chain.tip = some tip)
    (stakes : createCoinStake env tip wallet nFees = some (some made, wallet')) :
    ∃ kernel nSpendable, stakeKernel env wallet = some kernel ∧
      coinStakeOf env kernel nSpendable nFees = some (some made.1) := by
  unfold createCoinStake at stakes
  split at stakes
  · cases stakes
  rename_i nReserveBalance reserve
  split at stakes
  · cases stakes
  obtain ⟨found, search, stakes⟩ := Option.bind_eq_some_iff.mp stakes
  cases found with
  | none => cases stakes
  | some kernel =>
    obtain ⟨result, coinStake, same⟩ := Option.map_eq_some_iff.mp stakes
    cases result with
    | none => cases same
    | some txNew =>
      obtain ⟨first, -⟩ := Prod.mk.inj same
      obtain rfl := Option.some.inj first
      refine ⟨kernel, _, ?_, coinStake⟩
      unfold stakeKernel stakeCoins
      rw [atTip, Option.bind_some, reserve]
      rw [search]
      rfl

/-- A template is what is generated in front of what is picked. -/
theorem createNewBlock_some {valid : CBlockTemplate → Bool}
    (made : createNewBlock env valid s scriptPubKeyIn fProofOfStake = some (some template, s')) :
    ∃ c generated, collectTransactions env.toCollectEnv s.pool = some c ∧
      Generates env s scriptPubKeyIn c.nFees fProofOfStake generated ∧
      template.vtx = generated ++ c.vtx := by
  obtain ⟨tip, atTip, made⟩ := Option.bind_eq_some_iff.mp made
  obtain ⟨c, collected, made⟩ := Option.bind_eq_some_iff.mp made
  obtain ⟨⟨result, after⟩, first, made⟩ := Option.map_eq_some_iff.mp made
  cases result with
  | none => cases made
  | some found =>
    have same : found = template := by
      dsimp only at made
      split at made
      · cases made
      · exact Option.some.inj (Prod.mk.inj made).1
    subst same
    refine ⟨c, found.vtx.take (if fProofOfStake then 2 else 1), collected, ?_⟩
    cases fProofOfStake with
    | false =>
      obtain ⟨worked, work, same⟩ := Option.map_eq_some_iff.mp first
      obtain rfl := Option.some.inj (Prod.mk.inj same).1
      obtain ⟨coinBase, pays, rfl⟩ := Option.map_eq_some_iff.mp work
      exact ⟨Generates.work pays, rfl⟩
    | true =>
      rw [if_pos rfl] at first
      unfold stakeTemplate at first
      dsimp only at first
      split at first
      · cases first
      obtain ⟨⟨coinStake, wallet⟩, stakes, same⟩ := Option.map_eq_some_iff.mp first
      cases coinStake with
      | none => cases same
      | some pair =>
        obtain ⟨first, -⟩ := Prod.mk.inj same
        obtain rfl := Option.some.inj first
        obtain ⟨kernel, nSpendable, kernelFound, coinStakeMade⟩ :=
          createCoinStake_some atTip stakes
        exact ⟨Generates.stake kernelFound coinStakeMade, rfl⟩

/-- A kernel is of a coin, with what its output is worth and the script made of its script. -/
theorem findKernel_some {coins : List StakeCoin} {kernel : FoundKernel}
    (found : findKernel env tip coins = some (some kernel)) :
    kernel.coin ∈ coins ∧ ∃ out, kernel.coin.tx.vout[kernel.coin.n.toNat]? = some out ∧
      out.nValue = kernel.nCredit ∧
      stakeScript env out.scriptPubKey = some kernel.scriptPubKeyOut := by
  induction coins with
  | nil => cases found
  | cons coin rest ih =>
    have later : findKernel env tip rest = some (some kernel) →
        kernel.coin ∈ coin :: rest ∧ ∃ out, kernel.coin.tx.vout[kernel.coin.n.toNat]? = some out ∧
          out.nValue = kernel.nCredit ∧
          stakeScript env out.scriptPubKey = some kernel.scriptPubKeyOut := by
      intro found
      obtain ⟨member, value⟩ := ih found
      exact ⟨mem_cons_of_mem _ member, value⟩
    rw [findKernel] at found
    split at found
    · exact later found
    split at found
    · exact later found
    split at found
    · exact later found
    split at found
    · cases found
    · rename_i out slot
      obtain ⟨scriptPubKeyOut, script, rfl⟩ := Option.map_eq_some_iff.mp (Option.some.inj found)
      exact ⟨mem_cons_self, out, slot, rfl, script⟩

theorem stakeKernel_some {wallet : StakeWallet} {kernel : FoundKernel}
    (found : stakeKernel env wallet = some kernel) :
    kernel.coin ∈ stakeCoins env wallet ∧
      ∃ out, kernel.coin.tx.vout[kernel.coin.n.toNat]? = some out ∧
        out.nValue = kernel.nCredit ∧
        stakeScript env out.scriptPubKey = some kernel.scriptPubKeyOut := by
  obtain ⟨tip, -, found⟩ := Option.bind_eq_some_iff.mp found
  exact findKernel_some (Option.join_eq_some_iff.mp found)

/-- A coinstake spends the coin of its kernel, which has a value. -/
theorem coinStakeOf_some {kernel : FoundKernel} {nSpendable : Int} {tx : CTransaction}
    (made : coinStakeOf env kernel nSpendable nFees = some (some tx)) :
    kernel.nCredit ≠ 0 ∧ tx.prevouts = [kernel.coin.prevout] ∧
      ∃ worth : kernel.nCredit ≠ 0,
        stakeOutputs env.reward (kernel.stake env worth) nFees = some tx.vout := by
  unfold coinStakeOf at made
  split at made
  · cases made
  rename_i worth
  split at made
  · cases made
  obtain ⟨vout, outputs, made⟩ := Option.map_eq_some_iff.mp made
  obtain ⟨scriptSig, -, rfl⟩ := Option.map_eq_some_iff.mp made
  exact ⟨worth, rfl, worth, outputs⟩

theorem isCoinBase_payingCoinBase {coinBase : CTransaction}
    (made : payingCoinBase env scriptPubKeyIn nFees = some coinBase) :
    coinBase.isCoinBase = true := by
  obtain ⟨block_value, -, rfl⟩ := Option.map_eq_some_iff.mp made
  rfl

theorem Generates.spends
    (generates : Generates env s scriptPubKeyIn nFees fProofOfStake generated) :
    generated.flatMap CTransaction.spends = [] ∨
      ∃ kernel coinStake, fProofOfStake = true ∧ stakeKernel env s.wallet = some kernel ∧
        kernel.nCredit ≠ 0 ∧ generated = [stakeCoinBase env scriptPubKeyIn, coinStake] ∧
        coinStake.spends = [kernel.coin.prevout] ∧
        generated.flatMap CTransaction.spends = [kernel.coin.prevout] := by
  cases generates with
  | work made =>
    left
    rw [flatMap_singleton, CTransaction.spends, if_pos (isCoinBase_payingCoinBase made)]
  | @stake kernel nSpendable tx found made =>
    obtain ⟨worth, prevouts, -⟩ := coinStakeOf_some made
    have coinBase : (stakeCoinBase env scriptPubKeyIn).spends = [] := rfl
    rw [flatMap_cons, flatMap_singleton, coinBase, nil_append]
    cases isBase : tx.isCoinBase with
    | true =>
      left
      rw [CTransaction.spends, if_pos isBase]
    | false =>
      right
      have spends : tx.spends = [kernel.coin.prevout] := by
        rw [CTransaction.spends, isBase, if_neg Bool.false_ne_true, prevouts]
      exact ⟨kernel, tx, rfl, found, worth, rfl, spends, spends⟩

end Parts

/-! ## What is paid -/

section Paid

variable {env : MinerEnv} {s : MinerState} {scriptPubKeyIn : CScript} {fProofOfStake : Bool}
  {nFees : Int} {generated : List CTransaction}

theorem sum_modify_zero (out : CTxOut) (rest : List CTxOut) (nValue : Int) :
    (((out :: rest).modify 0 fun out => { out with nValue := out.nValue - nValue }).map
      CTxOut.nValue).sum = ((out :: rest).map CTxOut.nValue).sum - nValue := by
  simp only [modify_zero_cons, map_cons, sum_cons]
  omega

theorem coinBaseOutputs_sum (env : MinerEnv) (scriptPubKeyIn : CScript) (block_value nFees : Int) :
    ((coinBaseOutputs env scriptPubKeyIn block_value nFees).map CTxOut.nValue).sum =
      block_value + nFees := by
  unfold coinBaseOutputs
  dsimp only
  split
  · rw [fillBlockPayee_eq, singleton_append, sum_modify_zero, map_cons, sum_cons]
    dsimp only
    omega
  · simp

theorem devFeeOutput_sum {env : RewardEnv} {reward blockReward : Int} {devFeeOut : List CTxOut}
    (made : devFeeOutput env reward = some (devFeeOut, blockReward)) :
    (devFeeOut.map CTxOut.nValue).sum + blockReward =
      reward + (env.devFeeValue env.chainHeight).getD 0 := by
  unfold devFeeOutput at made
  cases past : env.pastUpdate with
  | true =>
    rw [past, if_pos rfl] at made
    obtain ⟨devFeeFund, fee, nonneg⟩ := RewardEnv.exists_devFeeValue past env.chainHeight
    rw [fee, Option.map_some] at made
    rw [fee, Option.getD_some]
    by_cases some : devFeeFund > 0
    · rw [if_pos some] at made
      obtain ⟨rfl, rfl⟩ := Prod.mk.inj (Option.some.inj made)
      simp only [map_cons, map_nil, sum_cons, sum_nil]
      omega
    rw [if_neg some] at made
    obtain ⟨rfl, rfl⟩ := Prod.mk.inj (Option.some.inj made)
    simp only [map_nil, sum_nil]
    omega
  | false =>
    rw [past, if_neg Bool.false_ne_true] at made
    rw [RewardEnv.devFeeValue_of_not_past past, Option.getD_some]
    by_cases on : env.devFee > 0
    · rw [if_pos on] at made
      obtain ⟨rfl, rfl⟩ := Prod.mk.inj (Option.some.inj made)
      simp only [map_cons, map_nil, sum_cons, sum_nil]
      omega
    · rw [if_neg on] at made
      obtain ⟨rfl, rfl⟩ := Prod.mk.inj (Option.some.inj made)
      simp

theorem stakeOutputs_sum {env : RewardEnv} {stake : Stake} {nFees : Int} {vout : List CTxOut}
    (made : stakeOutputs env stake nFees = some vout) :
    (vout.map CTxOut.nValue).sum = (env.blockValue env.chainHeight).getD 0 +
      (env.devFeeValue env.chainHeight).getD 0 + stake.nCredit + nFees := by
  obtain ⟨value, hvalue, made⟩ := Option.bind_eq_some_iff.mp made
  obtain ⟨⟨devFeeOut, blockReward⟩, fee, rfl⟩ := Option.map_eq_some_iff.mp made
  have total := devFeeOutput_sum fee
  simp only [fillBlockPayee_eq, cons_append, nil_append, payStake_eq, hvalue,
    Option.getD_some, map_cons, map_append, sum_cons, sum_append]
  have split := stake.splitOutputs_sum
    (stake.nCredit + blockReward - ((levelOutputs env blockReward).map CTxOut.nValue).sum)
  omega

/-- What is generated pays the reward and the fees it is given. -/
theorem Generates.paid (generates : Generates env s scriptPubKeyIn nFees fProofOfStake generated) :
    ((generated.flatMap CTransaction.vout).map CTxOut.nValue).sum =
      rewardBase env s.wallet fProofOfStake + nFees := by
  cases generates with
  | work made =>
    obtain ⟨block_value, value, rfl⟩ := Option.map_eq_some_iff.mp made
    have atTip : env.nHeight - 1 = env.reward.chainHeight := by
      unfold CollectEnv.nHeight
      omega
    rw [atTip] at value
    rw [flatMap_singleton, rewardBase, if_neg Bool.false_ne_true, value, Option.getD_some,
      add_zero]
    exact coinBaseOutputs_sum env scriptPubKeyIn block_value nFees
  | stake found made =>
    obtain ⟨-, -, worth, outputs⟩ := coinStakeOf_some made
    have paid := stakeOutputs_sum outputs
    have coinBase : (stakeCoinBase env scriptPubKeyIn).vout = [⟨0, []⟩] := rfl
    rw [flatMap_cons, flatMap_singleton, coinBase, map_append, sum_append, paid,
      rewardBase, if_pos rfl, found, Option.map_some, Option.getD_some]
    simp only [map_cons, map_nil, sum_cons, sum_nil, FoundKernel.stake]
    omega

end Paid

/-! ## When the shape holds -/

section Shape

variable {env : MinerEnv} {s s' : MinerState} {scriptPubKeyIn : CScript} {fProofOfStake : Bool}
  {template : CBlockTemplate} {nFees : Int} {generated : List CTransaction} {c : Collecting}

/-- An element of two lists is one of the first, or stands in the second. -/
theorem mem_or_split {α : Type} {first second earlier later : List α} {a : α}
    (split : first ++ second = earlier ++ a :: later) :
    a ∈ first ∨ ∃ before, earlier = first ++ before ∧ second = before ++ a :: later := by
  rcases append_eq_append_iff.mp split with ⟨before, here, there⟩ | ⟨rest, here, there⟩
  · exact Or.inr ⟨before, here, there⟩
  cases rest with
  | nil =>
    rw [append_nil] at here
    exact Or.inr ⟨[], by rw [append_nil, here], there.symm⟩
  | cons b rest =>
    obtain ⟨rfl, -⟩ := List.cons.inj there
    exact Or.inl (here ▸ mem_append_right _ mem_cons_self)

theorem generated_eq (generates : Generates env s scriptPubKeyIn nFees fProofOfStake generated)
    (split : template.vtx = generated ++ c.vtx) :
    template.generated fProofOfStake = generated ∧ template.included fProofOfStake = c.vtx := by
  unfold CBlockTemplate.generated CBlockTemplate.included
  rw [split]
  cases generates with
  | work => exact ⟨rfl, rfl⟩
  | stake => exact ⟨rfl, rfl⟩

theorem Picked.spends_eq {tip view : FlatCoins} {pool : CTxMemPool} {vtx : List CTransaction}
    (picked : Picked tip pool vtx view) {tx : CTransaction} (member : tx ∈ vtx) :
    tx.spends = tx.prevouts := by
  rw [CTransaction.spends, picked.notBase tx member, if_neg Bool.false_ne_true]

theorem Picked.spends_nodup {tip view : FlatCoins} {pool : CTxMemPool} {vtx : List CTransaction}
    (picked : Picked tip pool vtx view) : (vtx.flatMap CTransaction.spends).Nodup := by
  rw [flatMap_congr fun tx member => picked.spends_eq member]
  exact picked.spentOnce

theorem PoolFits.hash_ne {tip : FlatCoins} {pool : CTxMemPool} (fits : PoolFits tip pool)
    {out : COutPoint} (unspent : tip.isUnspent out = true) {hash : UInt256}
    {entry : CTxMemPoolEntry} (found : pool.mapTx.lookup hash = some entry) : out.hash ≠ hash := by
  rintro rfl
  unfold FlatCoins.isUnspent at unspent
  rw [fits.unconfirmed _ _ found] at unspent
  cases unspent

theorem shape_of_fits (fits : PoolFits env.pcoinsTip.coins s.pool)
    (generates : Generates env s scriptPubKeyIn c.nFees fProofOfStake generated)
    (collected : Collected env.toCollectEnv s.pool c) (split : template.vtx = generated ++ c.vtx)
    (fit : GeneratedFits env fProofOfStake template) :
    TemplateShape env s fProofOfStake template := by
  obtain ⟨front, back⟩ := generated_eq generates split
  have picked := collected.picked
  obtain ⟨unspent, free, size, sigOps⟩ := fit
  rw [front] at unspent free size
  rw [back] at free size
  refine ⟨?_, ?_, ?_, ?_, ?_, sigOps, ?_⟩
  · rw [back]
    exact picked.fromPool
  · intro earlier tx later split' out spends
    rw [split] at split'
    rcases mem_or_split split' with member | ⟨before, rfl, inner⟩
    · exact Or.inl (unspent out (mem_flatMap.mpr ⟨tx, member, spends⟩))
    have member : tx ∈ c.vtx := inner ▸ mem_append_right _ mem_cons_self
    rw [picked.spends_eq member] at spends
    obtain ⟨txout, found⟩ := picked.available before tx later inner out spends
    rcases mem_of_referredOutput found with there | ⟨parent, listed, hash, slot⟩
    · left
      rw [← FlatCoins.isSome_output, there]
      rfl
    · exact Or.inr ⟨parent, mem_append_right _ listed, hash,
        (List.getElem?_eq_some_iff.mp slot).1⟩
  · rw [split, flatMap_append, nodup_append]
    refine ⟨?_, picked.spends_nodup, ?_⟩
    · rcases generates.spends with none | ⟨kernel, -, -, -, -, -, -, one⟩
      · rw [none]
        exact nodup_nil
      · rw [one]
        exact nodup_singleton _
    · rintro out listed out' listed' rfl
      obtain ⟨tx, member, spends⟩ := mem_flatMap.mp listed'
      exact free out listed tx member spends
  · rw [split, pairwise_append]
    refine ⟨?_, ?_, ?_⟩
    · cases generates with
      | work => exact pairwise_singleton _ _
      | stake =>
        have coinBase : (stakeCoinBase env scriptPubKeyIn).spends = [] := rfl
        rw [pairwise_pair, coinBase]
        exact fun out spends => absurd spends not_mem_nil
    · refine picked.ordered.imp_of_mem fun member _ ordered => ?_
      rw [picked.spends_eq member]
      exact ordered
    · intro child member parent included out spends
      obtain ⟨entry, found, -⟩ := picked.fromPool parent included
      exact fits.hash_ne (unspent out (mem_flatMap.mpr ⟨child, member, spends⟩)) found
  · rw [split, map_append, sum_append]
    exact size
  · rw [front, back, generates.paid, collected.counted.fees]

/-- The coin of a kernel is not an output of the coinbase, which is worth nothing. -/
theorem hash_ne_coinBase {kernel : FoundKernel} (found : stakeKernel env s.wallet = some kernel)
    (worth : kernel.nCredit ≠ 0)
    (injective : ∀ coin ∈ stakeCoins env s.wallet,
      HashInjective [coin.tx, firstCoinBase env scriptPubKeyIn]) :
    (stakeCoinBase env scriptPubKeyIn).getHash ≠ kernel.coin.prevout.hash := by
  intro same
  obtain ⟨member, out, slot, value, -⟩ := stakeKernel_some found
  have equal : kernel.coin.tx = firstCoinBase env scriptPubKeyIn :=
    injective kernel.coin member _ mem_cons_self _
      (mem_cons_of_mem _ mem_cons_self) same.symm
  rw [equal] at slot
  have listed : out ∈ (firstCoinBase env scriptPubKeyIn).vout := mem_of_getElem? slot
  have nothing : ∀ out ∈ (firstCoinBase env scriptPubKeyIn).vout, out.nValue = 0 := by
    intro out member
    obtain rfl := mem_singleton.mp member
    rfl
  exact worth (value.symm.trans (nothing out listed))

theorem fits_of_shape
    (generates : Generates env s scriptPubKeyIn c.nFees fProofOfStake generated)
    (split : template.vtx = generated ++ c.vtx)
    (injective : ∀ coin ∈ stakeCoins env s.wallet,
      HashInjective [coin.tx, firstCoinBase env scriptPubKeyIn])
    (shape : TemplateShape env s fProofOfStake template) :
    GeneratedFits env fProofOfStake template := by
  obtain ⟨front, back⟩ := generated_eq generates split
  refine ⟨?_, ?_, ?_, shape.sigOps⟩
  · rw [front]
    rcases generates.spends with none | ⟨kernel, coinStake, -, found, worth, rfl, spends, one⟩
    · rw [none]
      exact fun out listed => absurd listed not_mem_nil
    intro out listed
    rw [one, mem_singleton] at listed
    subst listed
    rcases shape.available [stakeCoinBase env scriptPubKeyIn] coinStake c.vtx split
      kernel.coin.prevout (by rw [spends]; exact mem_cons_self) with
      unspent | ⟨parent, listed, hash, -⟩
    · exact unspent
    · obtain rfl := mem_singleton.mp listed
      exact absurd hash (hash_ne_coinBase found worth injective)
  · rw [front, back]
    intro out listed tx member spends
    have once := shape.spentOnce
    rw [split, flatMap_append, nodup_append] at once
    exact once.2.2 out listed out (mem_flatMap.mpr ⟨tx, member, spends⟩) rfl
  · rw [front, back]
    have size := shape.size
    rw [split, map_append, sum_append] at size
    exact size

theorem generatedFits_of_stateFits
    (generates : Generates env s scriptPubKeyIn c.nFees fProofOfStake generated)
    (collected : Collected env.toCollectEnv s.pool c) (split : template.vtx = generated ++ c.vtx)
    (fit : StateFits env s scriptPubKeyIn fProofOfStake) :
    GeneratedFits env fProofOfStake template := by
  obtain ⟨front, back⟩ := generated_eq generates split
  have small : SmallGenerated env.pcoinsTip.coins generated := by
    cases generates with
    | work made => exact fit.work rfl _ _ made
    | stake found made => exact fit.stake rfl _ _ _ _ found made
  have counted := collected.counted
  have size := counted.size
  have sizeRoom := counted.sizeRoom
  have sigOps := counted.sigOps
  have sigOpsRoom := counted.sigOpsRoom
  have staked : ∀ out ∈ generated.flatMap CTransaction.spends,
      fProofOfStake = true ∧ ∃ coin ∈ stakeCoins env s.wallet, out = coin.prevout := by
    intro out listed
    rcases generates.spends with none | ⟨kernel, -, isStake, found, -, -, -, one⟩
    · rw [none] at listed
      cases listed
    · rw [one, mem_singleton] at listed
      exact ⟨isStake, kernel.coin, (stakeKernel_some found).1, listed⟩
  refine ⟨?_, ?_, ?_, ?_⟩
  · rw [front]
    intro out listed
    obtain ⟨isStake, coin, member, rfl⟩ := staked out listed
    exact fit.unspent isStake coin member
  · rw [front, back]
    intro out listed tx picked spends
    obtain ⟨isStake, coin, member, rfl⟩ := staked out listed
    obtain ⟨entry, found, rfl⟩ := collected.picked.fromPool tx picked
    rw [collected.picked.spends_eq picked] at spends
    exact fit.free isStake coin member _ (mem_transactions.mpr ⟨_, entry, found, rfl⟩) spends
  · rw [front, back]
    have bytes := small.1
    omega
  · rw [CBlockTemplate.sigOps, front, back]
    have operations := small.2
    omega

/-- A template has the shape where every coin of the wallet's set is unspent at the tip and by the
pool and what can be generated is small; exactly, if this holds of what is staked and generated. -/
theorem template_shape {valid : CBlockTemplate → Bool}
    (fits : PoolFits env.pcoinsTip.coins s.pool)
    (injective : ∀ coin ∈ stakeCoins env s.wallet,
      HashInjective [coin.tx, firstCoinBase env scriptPubKeyIn])
    (made : createNewBlock env valid s scriptPubKeyIn fProofOfStake = some (some template, s')) :
    (StateFits env s scriptPubKeyIn fProofOfStake → TemplateShape env s fProofOfStake template) ∧
      (TemplateShape env s fProofOfStake template ↔ GeneratedFits env fProofOfStake template) := by
  obtain ⟨c, generated, done, generates, split⟩ := createNewBlock_some made
  have collected := collected_of_collectTransactions fits done
  refine ⟨fun fit => ?_, fun shape => ?_, fun fit => ?_⟩
  · exact shape_of_fits fits generates collected split
      (generatedFits_of_stateFits generates collected split fit)
  · exact fits_of_shape generates split injective shape
  · exact shape_of_fits fits generates collected split fit

end Shape

/-! ## A coin that is staked and spent -/

/-- What `TxPriorityCompare` compares. -/
def TxPriority.key (byFee : Bool) (a : TxPriority) : ℚ ×ₗ ℚ :=
  if byFee then toLex ((a.feeRate : ℚ), a.dPriority) else toLex (a.dPriority, (a.feeRate : ℚ))

theorem TxPriority.less_iff (byFee : Bool) (a b : TxPriority) :
    a.less byFee b = true ↔ a.key byFee < b.key byFee := by
  unfold less key
  cases byFee with
  | true =>
    rw [if_pos rfl, if_pos rfl, if_pos rfl, Prod.Lex.toLex_lt_toLex, Int.cast_lt, Int.cast_inj]
    split_ifs with equal
    · simp [equal]
    · simp [equal]
  | false =>
    rw [if_neg Bool.false_ne_true, if_neg Bool.false_ne_true, if_neg Bool.false_ne_true,
      Prod.Lex.toLex_lt_toLex, Int.cast_lt]
    split_ifs with equal
    · simp [equal]
    · simp [equal]

def firstGreatest (byFee : Bool) (queue : List TxPriority) : Nat :=
  queue.findIdx fun first => queue.all fun other => !first.less byFee other

theorem firstGreatest_lt (byFee : Bool) {queue : List TxPriority} (some : queue ≠ []) :
    firstGreatest byFee queue < queue.length := by
  cases greatest : queue.argmax (TxPriority.key byFee) with
  | none => exact absurd (argmax_eq_none.mp greatest) some
  | some first =>
    apply findIdx_lt_length_of_exists
    refine ⟨first, argmax_mem greatest, all_eq_true.mpr fun other member => ?_⟩
    have le := le_of_mem_argmax member greatest
    cases less : first.less byFee other with
    | false => rfl
    | true => exact absurd ((TxPriority.less_iff byFee first other).mp less) (not_lt.mpr le)

/-- A heap that gives the first of the greatest elements in every turn. -/
def HeapOrder.first : HeapOrder where
  front _ := firstGreatest
  inside _ byFee queue some := firstGreatest_lt byFee some
  greatest _ byFee queue first found other member := by
    unfold firstGreatest at found
    obtain ⟨inside, same⟩ := List.getElem?_eq_some_iff.mp found
    have greatest := findIdx_getElem (w := inside)
    rw [same, all_eq_true] at greatest
    have less := greatest other member
    rwa [Bool.not_eq_true'] at less

def keyScript : CScript := CScript.pushData (List.replicate 33 2) ++ [CScript.OP_CHECKSIG]

def paidTx (hash : UInt256) : CTransaction :=
  ⟨hash, 1, [{ prevout := ⟨5, 0⟩ }], [⟨1000 * COIN, keyScript⟩], 0, []⟩

def paidCoin (hash : UInt256) : StakeCoin where
  tx := paidTx hash
  n := 0
  hashBlock := 2
  nonneg := by
    intro out member
    obtain rfl := mem_singleton.mp member
    decide

def spendingTx (prevout : COutPoint) : CTransaction :=
  ⟨8, 1, [{ prevout }], [⟨999 * COIN, [0x51]⟩], 0, []⟩

/-- A node at height 200 whose tip has the outputs of three transactions, and every kernel of which
hits. The first two outputs are the wallet's. -/
def stakingMiner : MinerEnv where
  reward := sampleRewardEnv 200 (by decide) 0 .init CMasternodePayments.filed_init
  checks := lenientEnv
  pcoinsTip :=
    ⟨[7, 11, 9].foldl (fun view hash => view.put hash (CCoins.fromTx (paidTx hash) 1))
      FlatCoins.empty, 201⟩
  heap := .first
  fDebug := false
  blockmaxsize := none
  blockprioritysize := none
  blockminsize := none
  minRelayTxFee := 10000
  time := 1600000000
  nextWorkRequired := 0x1e00ffff
  nStakeSetUpdateTime := 300
  nStakeSplitThreshold := 500
  selectStakeCoins _ := [paidCoin 7, paidCoin 11]
  kernelSearch _ _ _ nTimeTx := some nTimeTx
  getKey _ := none
  signSignature _ _ := some []
  computeHash _ := 99

/-- The node with one transaction in its pool, a minute after the wallet's set of coins was made. -/
def stakingState (tx : CTransaction) (nBalance : Int) : MinerState where
  pool := CTxMemPool.init.addUnchecked tx.getHash ⟨tx, COIN, tx.getSerializeSize, 1599999970, 200⟩
  wallet := ⟨nBalance, some 0, [paidCoin 7, paidCoin 11], 1599999940⟩
  nLastCoinStakeSearchTime := 1599999999

section Sample

variable (tx : CTransaction) (prevout : COutPoint) (nBalance : Int)

theorem stakingState_stakeCoins :
    stakeCoins stakingMiner (stakingState tx nBalance).wallet = [paidCoin 7, paidCoin 11] := rfl

theorem stakingState_pool {hash : UInt256} {entry : CTxMemPoolEntry}
    (found : (stakingState (spendingTx prevout) nBalance).pool.mapTx.lookup hash = some entry) :
    hash = 8 ∧ entry.tx = spendingTx prevout := by
  simp only [stakingState, CTxMemPool.addUnchecked, AssocMap.lookup_insert_eq] at found
  split at found
  · rename_i same
    obtain rfl := Option.some.inj found
    exact ⟨same, rfl⟩
  · cases found

theorem stakingState_fits : PoolFits stakingMiner.pcoinsTip.coins
    (stakingState (spendingTx prevout) nBalance).pool := by
  refine ⟨?_, ?_, ?_, ?_⟩
  · intro hash entry found
    obtain ⟨rfl, same⟩ := stakingState_pool prevout nBalance found
    rw [same]
    rfl
  · intro hash entry found
    rw [(stakingState_pool prevout nBalance found).2]
    exact cons_ne_nil _ _
  · intro hash entry found
    rw [(stakingState_pool prevout nBalance found).2]
    exact nodup_singleton _
  · intro hash entry found
    obtain ⟨rfl, -⟩ := stakingState_pool prevout nBalance found
    rfl

theorem stakingState_injective : ∀ coin ∈ stakeCoins stakingMiner (stakingState tx nBalance).wallet,
    HashInjective [coin.tx, firstCoinBase stakingMiner []] := by
  rw [stakingState_stakeCoins]
  unfold HashInjective
  decide +kernel

theorem levelOutputs_stakingMiner (block_value : Int) :
    levelOutputs stakingMiner.reward block_value = [] := by
  unfold levelOutputs
  exact filterMap_none CMasternode.levels

/-- Whatever the fees, the generated transactions are small. -/
theorem stakingState_stateFits (apart : prevout ≠ ⟨7, 0⟩ ∧ prevout ≠ ⟨11, 0⟩) :
    StateFits stakingMiner (stakingState (spendingTx prevout) nBalance) [] true where
  unspent := by
    intro _
    rw [stakingState_stakeCoins]
    decide +kernel
  free := by
    intro _ coin member tx listed
    obtain ⟨hash, entry, found, rfl⟩ := mem_transactions.mp listed
    rw [(stakingState_pool prevout nBalance found).2]
    show coin.prevout ∉ [prevout]
    rw [mem_singleton]
    rcases mem_cons.mp member with rfl | member
    · exact Ne.symm apart.1
    · obtain rfl := mem_singleton.mp member
      exact Ne.symm apart.2
  work isWork := absurd isWork (by decide)
  stake := by
    intro _ kernel nSpendable nFees tx found made
    have first : (stakeKernel stakingMiner (stakingState (spendingTx prevout) nBalance).wallet).map
        (fun kernel => (kernel.scriptPubKeyOut, kernel.coin.prevout)) =
        some (keyScript, ⟨7, 0⟩) := by
      unfold stakeKernel
      rw [stakingState_stakeCoins]
      decide +kernel
    rw [found, Option.map_some] at first
    obtain ⟨script, outpoint⟩ := Prod.mk.inj (Option.some.inj first)
    unfold coinStakeOf at made
    split at made
    · cases made
    split at made
    · cases made
    obtain ⟨vout, outputs, made⟩ := Option.map_eq_some_iff.mp made
    obtain ⟨scriptSig, signs, rfl⟩ := Option.map_eq_some_iff.mp made
    obtain rfl := Option.some.inj signs
    obtain ⟨value, -, outputs⟩ := Option.bind_eq_some_iff.mp outputs
    have noDevFee : devFeeOutput stakingMiner.reward (value + nFees) =
        some ([], value + nFees) := by
      unfold devFeeOutput
      rw [if_neg (by decide +kernel), if_neg (by decide)]
    rw [noDevFee, Option.map_some] at outputs
    simp only [append_nil, fillBlockPayee_eq, levelOutputs_stakingMiner, payStake_eq,
      Stake.splitOutputs, FoundKernel.stake, script] at outputs
    rw [outpoint]
    obtain rfl := Option.some.inj outputs
    split
    · exact ⟨Nat.le_of_ble_eq_true rfl, Nat.le_of_ble_eq_true rfl⟩
    · exact ⟨Nat.le_of_ble_eq_true rfl, Nat.le_of_ble_eq_true rfl⟩

end Sample

/-- Whether a result is there and holds a value with this property. -/
def givesOne {α σ : Type} (holds : α → Bool) : Option (Option α × σ) → Bool
  | some (some a, _) => holds a
  | _ => false

theorem exists_of_givesOne {α σ : Type} {holds : α → Bool} {result : Option (Option α × σ)}
    (gives : givesOne holds result = true) :
    ∃ a s, result = some (some a, s) ∧ holds a = true := by
  unfold givesOne at gives
  split at gives
  · exact ⟨_, _, rfl, gives⟩
  · cases gives

/-- A template with a transaction that spends another coin has the shape. -/
theorem template_shape_otherCoin : ∃ template s',
    createNewBlock stakingMiner (fun _ => true) (stakingState (spendingTx ⟨9, 0⟩) (2000 * COIN)) []
        true = some (some template, s') ∧
      template.included true = [spendingTx ⟨9, 0⟩] ∧
      TemplateShape stakingMiner (stakingState (spendingTx ⟨9, 0⟩) (2000 * COIN)) true
        template := by
  have picks : givesOne (fun template => template.included true = [spendingTx ⟨9, 0⟩])
      (createNewBlock stakingMiner (fun _ => true)
        (stakingState (spendingTx ⟨9, 0⟩) (2000 * COIN)) [] true) = true := by decide +kernel
  obtain ⟨template, s', made, picks⟩ := exists_of_givesOne picks
  exact ⟨template, s', made, of_decide_eq_true picks,
    (template_shape (stakingState_fits _ _) (stakingState_injective _ _) made).1
      (stakingState_stateFits _ _ (by decide))⟩

/-- The coin is staked, and the transaction of the pool that spends it stands behind the coinstake,
though it was unspent at the tip. -/
theorem stakedCoin_spent_twice : ∃ template s',
    createNewBlock stakingMiner (fun _ => true) (stakingState (spendingTx ⟨7, 0⟩) (1000 * COIN)) []
        true = some (some template, s') ∧
      PoolFits stakingMiner.pcoinsTip.coins (stakingState (spendingTx ⟨7, 0⟩) (1000 * COIN)).pool ∧
      stakingMiner.pcoinsTip.coins.isUnspent ⟨7, 0⟩ = true ∧
      ¬ TemplateShape stakingMiner (stakingState (spendingTx ⟨7, 0⟩) (1000 * COIN)) true
        template := by
  have twice : givesOne (fun template => ¬ (template.vtx.flatMap CTransaction.spends).Nodup)
      (createNewBlock stakingMiner (fun _ => true)
        (stakingState (spendingTx ⟨7, 0⟩) (1000 * COIN)) [] true) = true := by decide +kernel
  obtain ⟨template, s', made, twice⟩ := exists_of_givesOne twice
  exact ⟨template, s', made, stakingState_fits _ _, by decide +kernel,
    fun shape => of_decide_eq_true twice shape.spentOnce⟩

end Esbcoin
