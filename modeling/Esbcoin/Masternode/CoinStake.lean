import Esbcoin.Masternode.DevFee
import Mathlib.Tactic.IntervalCases

/-!
# Coinstakes that their producer's validator takes

What `CreateCoinStake` pays, output by output, and what the validators of the next block make of it
under the same votes. They pass if each level with a qualified payee is one that the producer pays,
which a share of zero is not, or pays a qualified payee by accident.
-/

namespace Esbcoin

open Payments RewardEnv List

/-! ## Payees with the most votes -/

section Payee

variable {mnlevel : Nat} {payment : Option CMasternodePayee}

theorem preferPayee_keeps {p payee : CMasternodePayee}
    (before : payment = some payee ∨ (payee = p ∧ payee.mnlevel = mnlevel)) :
    ∃ best, preferPayee mnlevel payment p = some best ∧ payee.nVotes ≤ best.nVotes := by
  unfold preferPayee
  by_cases other : p.mnlevel ≠ mnlevel
  · rw [if_pos other]
    rcases before with rfl | ⟨rfl, level⟩
    · exact ⟨payee, rfl, le_refl _⟩
    · exact absurd level other
  rw [if_neg other]
  cases payment with
  | none =>
    rcases before with none | ⟨rfl, -⟩
    · cases none
    · exact ⟨payee, rfl, le_refl _⟩
  | some best =>
    simp only
    by_cases more : p.nVotes > best.nVotes
    · rw [if_pos more]
      refine ⟨p, rfl, ?_⟩
      rcases before with same | ⟨rfl, -⟩
      · obtain rfl := Option.some.inj same
        omega
      · exact le_refl _
    rw [if_neg more]
    refine ⟨best, rfl, ?_⟩
    rcases before with same | ⟨rfl, -⟩
    · obtain rfl := Option.some.inj same
      exact le_refl _
    · omega

theorem preferPayee_mem {p best : CMasternodePayee}
    (after : preferPayee mnlevel payment p = some best) :
    payment = some best ∨ (best = p ∧ best.mnlevel = mnlevel) := by
  unfold preferPayee at after
  by_cases other : p.mnlevel ≠ mnlevel
  · rw [if_pos other] at after
    exact Or.inl after
  rw [if_neg other] at after
  have level := not_not.mp other
  cases payment with
  | none =>
    obtain rfl := Option.some.inj after
    exact Or.inr ⟨rfl, level⟩
  | some payee =>
    simp only at after
    split at after
    · obtain rfl := Option.some.inj after
      exact Or.inr ⟨rfl, level⟩
    · exact Or.inl after

theorem foldl_preferPayee_keeps (l : List CMasternodePayee) {payee : CMasternodePayee}
    (before : payment = some payee ∨ (payee ∈ l ∧ payee.mnlevel = mnlevel)) :
    ∃ best, l.foldl (preferPayee mnlevel) payment = some best ∧ payee.nVotes ≤ best.nVotes := by
  induction l generalizing payment payee with
  | nil =>
    rcases before with rfl | ⟨member, -⟩
    · exact ⟨payee, rfl, le_refl _⟩
    · cases member
  | cons p l ih =>
    by_cases later : payee ∈ l ∧ payee.mnlevel = mnlevel
    · exact ih (Or.inr later)
    have now : payment = some payee ∨ (payee = p ∧ payee.mnlevel = mnlevel) := by
      rcases before with same | ⟨member, level⟩
      · exact Or.inl same
      · rcases mem_cons.mp member with rfl | inside
        · exact Or.inr ⟨rfl, level⟩
        · exact absurd ⟨inside, level⟩ later
    obtain ⟨next, preferred, votes⟩ := preferPayee_keeps now
    obtain ⟨best, found, votes'⟩ := ih (Or.inl preferred)
    exact ⟨best, found, votes.trans votes'⟩

theorem foldl_preferPayee_mem (l : List CMasternodePayee) {best : CMasternodePayee}
    (after : l.foldl (preferPayee mnlevel) payment = some best) :
    payment = some best ∨ (best ∈ l ∧ best.mnlevel = mnlevel) := by
  induction l generalizing payment with
  | nil => exact Or.inl after
  | cons p l ih =>
    rcases ih after with step | ⟨member, level⟩
    · rcases preferPayee_mem step with same | ⟨rfl, level⟩
      · exact Or.inl same
      · exact Or.inr ⟨mem_cons_self, level⟩
    · exact Or.inr ⟨mem_cons_of_mem p member, level⟩

theorem getPayee_qualified (block : CMasternodeBlockPayees) {payee : CMasternodePayee}
    (member : payee ∈ block.vecPayments) (qualified : payee.Qualified) :
    ∃ best ∈ block.vecPayments, best.Qualified ∧ best.mnlevel = payee.mnlevel ∧
      block.getPayee payee.mnlevel = some best.scriptPubKey := by
  obtain ⟨best, found, votes⟩ := foldl_preferPayee_keeps block.vecPayments
    (Or.inr ⟨member, rfl⟩ : none = some payee ∨ _)
  rcases foldl_preferPayee_mem block.vecPayments found with none | ⟨inside, level⟩
  · cases none
  refine ⟨best, inside, ?_, level, ?_⟩
  · unfold CMasternodePayee.Qualified at qualified ⊢
    omega
  · unfold CMasternodeBlockPayees.getPayee
    rw [found]
    rfl

end Payee

/-! ## What is paid -/

section Outputs

variable {env : RewardEnv} {stake : Stake}

/-- The output that pays a level. -/
def levelOutput (env : RewardEnv) (block_value : Int) (mnlevel : Nat) : Option CTxOut :=
  (levelPayee env mnlevel).bind (fun payee =>
    if env.masternodePayment mnlevel block_value = 0 then none
    else some ⟨env.masternodePayment mnlevel block_value, payee⟩)

/-- The outputs that pay the levels. -/
def levelOutputs (env : RewardEnv) (block_value : Int) : List CTxOut :=
  CMasternode.levels.filterMap (levelOutput env block_value)

theorem foldl_fillLevel (block_value : Int) (levels : List Nat) (vout : List CTxOut)
    (total : Int) :
    levels.foldl (fillLevel env block_value) (vout, total) =
      (vout ++ levels.filterMap (levelOutput env block_value),
        total + ((levels.filterMap (levelOutput env block_value)).map CTxOut.nValue).sum) := by
  induction levels generalizing vout total with
  | nil => simp
  | cons mnlevel levels ih =>
    rw [foldl_cons, fillLevel, filterMap_cons]
    unfold levelOutput at ih ⊢
    cases levelPayee env mnlevel with
    | none => exact ih vout total
    | some payee =>
      simp only [Option.bind_some]
      by_cases zero : env.masternodePayment mnlevel block_value = 0
      · rw [if_pos zero, if_pos zero]
        exact ih vout total
      · rw [if_neg zero, if_neg zero, ih]
        simp [add_assoc]

theorem fillBlockPayee_eq (env : RewardEnv) (vout : List CTxOut) (block_value : Int) :
    fillBlockPayee env vout block_value =
      (vout ++ levelOutputs env block_value,
        ((levelOutputs env block_value).map CTxOut.nValue).sum) := by
  obtain ⟨pindex, tip⟩ := Option.isSome_iff_exists.mp env.hasTip
  unfold fillBlockPayee levelOutputs
  rw [tip]
  simp only [foldl_fillLevel, zero_add]

variable {block_value : Int}

theorem mem_levelOutputs_iff {out : CTxOut} :
    out ∈ levelOutputs env block_value ↔ ∃ mnlevel ∈ CMasternode.levels,
      env.masternodePayment mnlevel block_value ≠ 0 ∧
        levelPayee env mnlevel = some out.scriptPubKey ∧
        out.nValue = env.masternodePayment mnlevel block_value := by
  unfold levelOutputs
  rw [mem_filterMap]
  refine exists_congr fun mnlevel => and_congr_right fun _ => ?_
  unfold levelOutput
  cases levelPayee env mnlevel with
  | none => simp
  | some payee =>
    simp only [Option.bind_some, Option.some.injEq]
    by_cases zero : env.masternodePayment mnlevel block_value = 0
    · simp [zero]
    rw [if_neg zero]
    constructor
    · intro same
      obtain rfl := Option.some.inj same
      exact ⟨zero, rfl, rfl⟩
    · rintro ⟨-, rfl, value⟩
      rw [← value]

/-- What the masternode of a level gets, if there is one. -/
def levelShare (env : RewardEnv) (block_value : Int) (mnlevel : Nat) : Int :=
  if (levelPayee env mnlevel).isSome then env.masternodePayment mnlevel block_value else 0

/-- The shares of all levels. -/
def levelShares (env : RewardEnv) (block_value : Int) : Int :=
  (CMasternode.levels.map (levelShare env block_value)).sum

theorem levelOutputs_sum (block_value : Int) :
    ((levelOutputs env block_value).map CTxOut.nValue).sum = levelShares env block_value := by
  unfold levelOutputs levelShares
  induction CMasternode.levels with
  | nil => rfl
  | cons mnlevel levels ih =>
    rw [filterMap_cons, map_cons, sum_cons, ← ih, levelShare, levelOutput]
    cases levelPayee env mnlevel with
    | none => simp
    | some payee =>
      by_cases zero : env.masternodePayment mnlevel block_value = 0
      · simp [zero]
      · simp [zero]

/-- The masternodes get no more than the value they share. -/
theorem levelShares_le (nonneg : 0 ≤ block_value) : levelShares env block_value ≤ block_value := by
  have each : ∀ mnlevel, levelShare env block_value mnlevel ≤
      env.masternodePayment mnlevel block_value := by
    intro mnlevel
    have share : 0 ≤ env.masternodePayment mnlevel block_value :=
      getMasternodePayment_nonneg nonneg
    unfold levelShare
    split <;> omega
  have all : levelShares env block_value ≤
      (CMasternode.levels.map (fun mnlevel => env.masternodePayment mnlevel block_value)).sum := by
    unfold levelShares
    induction CMasternode.levels with
    | nil => exact le_refl _
    | cons mnlevel levels ih =>
      exact add_le_add (each mnlevel) ih
  exact all.trans (payments_le nonneg)

/-- Is a credit split (`wallet.cpp:2489`)? -/
def Stake.splits (stake : Stake) (nCredit : Int) : Bool :=
  decide (nCredit.tdiv 2 % 2 ^ 64 > (stake.nStakeSplitThreshold.toNat * COIN) % 2 ^ 64)

/-- The value of the first stake output. -/
def Stake.outputValue (stake : Stake) (nCredit : Int) : Int :=
  if stake.splits nCredit then (nCredit.tdiv 2).tdiv CENT * CENT else nCredit

/-- The second stake output of a split stake. -/
def Stake.splitOutputs (stake : Stake) (nCredit : Int) : List CTxOut :=
  if stake.splits nCredit then
    [⟨nCredit - stake.outputValue nCredit, stake.scriptPubKeyOut⟩]
  else []

theorem payStake_eq (stake : Stake) (marker out : CTxOut) (rest : List CTxOut) (nCredit : Int) :
    payStake stake (marker :: out :: rest) nCredit =
      marker :: { out with nValue := stake.outputValue nCredit } ::
        (rest ++ stake.splitOutputs nCredit) := by
  simp only [payStake, Stake.outputValue, Stake.splitOutputs, Stake.splits, decide_eq_true_eq]
  by_cases split : nCredit.tdiv 2 % 2 ^ 64 > (stake.nStakeSplitThreshold.toNat * COIN) % 2 ^ 64
  · simp only [if_pos split]
    rfl
  · simp only [if_neg split, append_nil]
    rfl

theorem Stake.outputValue_bounds (stake : Stake) {nCredit : Int} (nonneg : 0 ≤ nCredit) :
    0 ≤ stake.outputValue nCredit ∧ stake.outputValue nCredit ≤ nCredit := by
  have half : nCredit.tdiv 2 = nCredit / 2 := Int.tdiv_eq_ediv_of_nonneg nonneg
  have cents : (nCredit / 2).tdiv CENT = nCredit / 2 / CENT :=
    Int.tdiv_eq_ediv_of_nonneg (by omega)
  unfold outputValue
  rw [half, cents, CENT]
  split <;> omega

theorem Stake.splitOutputs_sum (stake : Stake) (nCredit : Int) :
    stake.outputValue nCredit + ((stake.splitOutputs nCredit).map CTxOut.nValue).sum = nCredit := by
  unfold splitOutputs
  by_cases split : stake.splits nCredit = true
  · rw [if_pos split]
    simp
  · rw [if_neg split]
    simp [outputValue, split]

theorem Stake.nFees_nonneg (stake : Stake) : 0 ≤ stake.nFees := by
  unfold nFees
  induction stake.vtx with
  | nil => exact le_refl _
  | cons tx vtx ih =>
    have := tx.covered
    rw [map_cons, sum_cons]
    omega

/-- What the stake is left with. -/
def stakeCredit (env : RewardEnv) (stake : Stake) (block_value : Int) : Int :=
  stake.nCredit + block_value - levelShares env block_value

theorem stakeCredit_nonneg (nonneg : 0 ≤ block_value) : 0 ≤ stakeCredit env stake block_value := by
  have shares : levelShares env block_value ≤ block_value := levelShares_le nonneg
  have positive := stake.positive
  unfold stakeCredit
  omega

/-- The outputs of a coinstake, one after the other. -/
theorem coinStakeOutputs_eq {value : Int} {devFeeOut : List CTxOut}
    (hvalue : env.blockValue env.chainHeight = some value)
    (fee : devFeeOutput env (value + stake.nFees) = some (devFeeOut, block_value)) :
    coinStakeOutputs env stake =
      some (⟨0, []⟩ ::
        ⟨stake.outputValue (stakeCredit env stake block_value), stake.scriptPubKeyOut⟩ ::
          (devFeeOut ++ levelOutputs env block_value ++
            stake.splitOutputs (stakeCredit env stake block_value))) := by
  unfold coinStakeOutputs
  rw [hvalue, Option.bind_some, fee, Option.map_some]
  simp only [fillBlockPayee_eq, levelOutputs_sum, cons_append, nil_append]
  rw [payStake_eq]
  rfl

end Outputs

/-! ## Rewards -/

section Reward

variable {env : RewardEnv} {stake : Stake} {value : Int}

theorem cappedSubsidy_nonneg {params : CChainParams} {nSubsidy nMoneySupply : Int}
    (nonneg : 0 ≤ nSubsidy) : 0 ≤ cappedSubsidy params nSubsidy nMoneySupply := by
  simp only [cappedSubsidy]
  split_ifs <;> omega

theorem RewardEnv.exists_blockValue (env : RewardEnv) (nHeight : Int) :
    ∃ value, env.blockValue nHeight = some value ∧ 0 ≤ value := by
  have subsidy := blockSubsidy_nonneg env.params nHeight
  obtain ⟨pindex, tip⟩ := Option.isSome_iff_exists.mp env.hasTip
  unfold LinkedChain.tip at tip
  unfold blockValue getBlockValue
  rw [tip]
  split
  · exact ⟨_, rfl, subsidy⟩
  · exact ⟨_, rfl, cappedSubsidy_nonneg subsidy⟩

theorem RewardEnv.exists_devFeeValue (past : env.pastUpdate = true) (nHeight : Int) :
    ∃ devFeeFund, env.devFeeValue nHeight = some devFeeFund ∧ 0 ≤ devFeeFund := by
  refine ⟨_, devFeeValue_of_past past nHeight, ?_⟩
  have subsidy := blockSubsidy_nonneg env.params nHeight
  split
  · unfold devFeeOf nDevFeeCycle
    rw [Int.tdiv_eq_ediv_of_nonneg (by omega)]
    omega
  · exact le_refl _

theorem RewardEnv.devFeeValue_of_not_past (before : env.pastUpdate = false) (nHeight : Int) :
    env.devFeeValue nHeight = some 0 := by
  have before' : ¬ env.chain.chainActive.height > CONSENSUS_FORK_REWARD_UPDATE_BLOCK :=
    of_decide_eq_false before
  exact if_neg fun both => before' both.2

theorem RewardEnv.sporkDevFee_bounds (on : 0 < env.devFee) {less more : Int} (nonneg : 0 ≤ less)
    (le : less ≤ more) :
    0 ≤ env.sporkDevFee less ∧ env.sporkDevFee less ≤ less ∧
      env.sporkDevFee less ≤ env.sporkDevFee more ∧
      less - env.sporkDevFee less ≤ more - env.sporkDevFee more := by
  unfold sporkDevFee
  have percent : 0 < min env.devFee 10 ∧ min env.devFee 10 ≤ 10 := by omega
  generalize min env.devFee 10 = d at percent
  obtain ⟨low, high⟩ := percent
  have first : (less * d).tdiv 100 = less * d / 100 :=
    Int.tdiv_eq_ediv_of_nonneg (mul_nonneg nonneg low.le)
  have second : (more * d).tdiv 100 = more * d / 100 :=
    Int.tdiv_eq_ediv_of_nonneg (mul_nonneg (nonneg.trans le) low.le)
  interval_cases d <;> omega

/-- The reward that `FillBlockPayee` is given, for a block value. -/
def sharedReward (env : RewardEnv) (stake : Stake) (value : Int) : Int :=
  let reward := value + stake.nFees
  if env.pastUpdate = false ∧ 0 < env.devFee then reward - env.sporkDevFee reward else reward

/-- `CreateCoinStake` pays the dev fee. -/
def RewardEnv.makesDevFee (env : RewardEnv) : Bool :=
  if env.pastUpdate then (env.devFeeValue env.chainHeight).any (fun devFeeFund => devFeeFund > 0)
  else decide (0 < env.devFee)

/-- What the validator shares, for a block value. -/
def requiredReward (env : RewardEnv) (value : Int) : Int :=
  if env.pastUpdate = false ∧ 0 < env.devFee then value - env.sporkDevFee value else value

theorem requiredReward_bounds (stake : Stake) (nonneg : 0 ≤ value) :
    0 ≤ requiredReward env value ∧ requiredReward env value ≤ sharedReward env stake value := by
  have fees := stake.nFees_nonneg
  simp only [requiredReward, sharedReward]
  by_cases spork : env.pastUpdate = false ∧ 0 < env.devFee
  · have bounds := sporkDevFee_bounds spork.2 nonneg
      (show value ≤ value + stake.nFees by omega)
    rw [if_pos spork, if_pos spork]
    omega
  · rw [if_neg spork, if_neg spork]
    omega

/-- The dev-fee output of a coinstake: none, or one that is as large as the validator asks. -/
def MadeDevFee (env : RewardEnv) (value : Int) (devFeeOut : List CTxOut) : Prop :=
  (devFeeOut = [] ∧ env.makesDevFee = false) ∨
    ∃ devFeeFund, devFeeOut = [⟨devFeeFund, env.devFeeScript⟩] ∧ 0 ≤ devFeeFund ∧
      env.makesDevFee = true ∧
      (env.pastUpdate = true → env.devFeeValue env.chainHeight = some devFeeFund) ∧
      (env.pastUpdate = false → env.sporkDevFee value ≤ devFeeFund)

/-- What the producer makes of the dev fee. -/
theorem devFeeOutput_eq (stake : Stake) (nonneg : 0 ≤ value) :
    ∃ devFeeOut, devFeeOutput env (value + stake.nFees) =
        some (devFeeOut, sharedReward env stake value) ∧
      MadeDevFee env value devFeeOut ∧
      (devFeeOut.map CTxOut.nValue).sum + sharedReward env stake value =
        value + stake.nFees + ((env.devFeeValue env.chainHeight).getD 0) := by
  have fees := stake.nFees_nonneg
  simp only [devFeeOutput, MadeDevFee, makesDevFee, sharedReward]
  cases past : env.pastUpdate with
  | true =>
    obtain ⟨devFeeFund, fee, nonneg⟩ := exists_devFeeValue past env.chainHeight
    simp only [fee, Option.map_some, Option.any_some, Option.getD_some, if_true, reduceCtorEq,
      false_and, if_false]
    by_cases some : devFeeFund > 0
    · refine ⟨[⟨devFeeFund, env.devFeeScript⟩], by rw [if_pos some], Or.inr ?_, ?_⟩
      · exact ⟨devFeeFund, rfl, nonneg, decide_eq_true some, fun _ => rfl, nofun⟩
      · simp only [map_cons, map_nil, sum_cons, sum_nil]
        omega
    · refine ⟨[], by rw [if_neg some], Or.inl ⟨rfl, decide_eq_false some⟩, ?_⟩
      simp only [map_nil, sum_nil]
      omega
  | false =>
    simp only [devFeeValue_of_not_past past, Option.getD_some, Bool.false_eq_true,
      if_false, true_and]
    by_cases on : 0 < env.devFee
    · have bounds := sporkDevFee_bounds on nonneg
        (show value ≤ value + stake.nFees by omega)
      simp only [on, if_true]
      refine ⟨_, rfl, Or.inr ⟨_, rfl, by omega, decide_eq_true trivial, nofun,
        fun _ => bounds.2.2.1⟩, ?_⟩
      simp only [map_cons, map_nil, sum_cons, sum_nil]
      omega
    · simp only [on, if_false]
      refine ⟨[], rfl, Or.inl ⟨rfl, rfl⟩, ?_⟩
      simp only [map_nil, sum_nil]
      omega

end Reward

/-! ## Levels that are served -/

section Served

variable {env : RewardEnv} {stake : Stake} {value : Int}

/-- An output with this script is made besides: the marker, the stake, the dev fee, or a
masternode of some level. -/
def PaysScript (env : RewardEnv) (stake : Stake) (value : Int) (script : CScript) : Prop :=
  script = [] ∨ script = stake.scriptPubKeyOut ∨
    (env.makesDevFee = true ∧ script = env.devFeeScript) ∨
    ∃ mnlevel ∈ CMasternode.levels,
      env.masternodePayment mnlevel (sharedReward env stake value) ≠ 0 ∧
        levelPayee env mnlevel = some script

/-- A level with a qualified payee is one the producer pays, with a share that is not zero, or
an output pays one of its qualified payees by accident. -/
def LevelServed (env : RewardEnv) (stake : Stake) (value : Int)
    (vecPayments : List CMasternodePayee) (mnlevel : Nat) : Prop :=
  (mnlevel ∈ CMasternode.levels ∧
      env.masternodePayment mnlevel (sharedReward env stake value) ≠ 0) ∨
    ∃ paid ∈ vecPayments, paid.Qualified ∧ paid.mnlevel = mnlevel ∧
      PaysScript env stake value paid.scriptPubKey

/-- The outputs of a coinstake with these for the dev fee. -/
def outputsWith (env : RewardEnv) (stake : Stake) (value : Int) (devFeeOut : List CTxOut) :
    List CTxOut :=
  ⟨0, []⟩ ::
    ⟨stake.outputValue (stakeCredit env stake (sharedReward env stake value)),
      stake.scriptPubKeyOut⟩ ::
    (devFeeOut ++ levelOutputs env (sharedReward env stake value) ++
      stake.splitOutputs (stakeCredit env stake (sharedReward env stake value)))

/-- What stands for the dev fee among the outputs. -/
structure DevFeeOutput (env : RewardEnv) (devFeeOut : List CTxOut) : Prop where
  output : ∀ out ∈ devFeeOut, out.scriptPubKey = env.devFeeScript ∧ 0 ≤ out.nValue
  made : devFeeOut ≠ [] ↔ env.makesDevFee = true

variable {devFeeOut : List CTxOut}

/-- The scripts that are paid. -/
theorem paysScript_iff (fee : DevFeeOutput env devFeeOut) (nonneg : 0 ≤ value)
    (script : CScript) :
    (∃ out ∈ outputsWith env stake value devFeeOut, out.scriptPubKey = script ∧ 0 ≤ out.nValue) ↔
      PaysScript env stake value script := by
  have reward : 0 ≤ sharedReward env stake value := by
    have := @requiredReward_bounds env value stake nonneg
    omega
  have credit : 0 ≤ stakeCredit env stake (sharedReward env stake value) :=
    stakeCredit_nonneg reward
  obtain ⟨low, high⟩ := stake.outputValue_bounds credit
  unfold PaysScript outputsWith
  constructor
  · rintro ⟨out, member, rfl, -⟩
    simp only [mem_cons, mem_append] at member
    rcases member with rfl | rfl | (made | level) | split
    · exact Or.inl rfl
    · exact Or.inr (Or.inl rfl)
    · refine Or.inr (Or.inr (Or.inl ⟨fee.made.mp (ne_nil_of_mem made), ?_⟩))
      exact (fee.output out made).1
    · obtain ⟨mnlevel, inside, share, payee, -⟩ := mem_levelOutputs_iff.mp level
      exact Or.inr (Or.inr (Or.inr ⟨mnlevel, inside, share, payee⟩))
    · unfold Stake.splitOutputs at split
      split at split
      · rw [mem_singleton.mp split]
        exact Or.inr (Or.inl rfl)
      · cases split
  · rintro (rfl | rfl | ⟨made, rfl⟩ | ⟨mnlevel, inside, share, payee⟩)
    · exact ⟨_, mem_cons_self, rfl, le_refl _⟩
    · exact ⟨_, mem_cons_of_mem _ mem_cons_self, rfl, low⟩
    · obtain ⟨out, rest, whole⟩ := exists_cons_of_ne_nil (fee.made.mpr made)
      have member : out ∈ devFeeOut := whole ▸ mem_cons_self
      refine ⟨out, ?_, fee.output out member⟩
      simp only [mem_cons, mem_append]
      exact Or.inr (Or.inr (Or.inl (Or.inl member)))
    · refine ⟨⟨env.masternodePayment mnlevel (sharedReward env stake value), script⟩, ?_, rfl,
        getMasternodePayment_nonneg reward⟩
      simp only [mem_cons, mem_append]
      exact Or.inr (Or.inr (Or.inl (Or.inr
        (mem_levelOutputs_iff.mpr ⟨mnlevel, inside, share, payee, rfl⟩))))

theorem isPaid_iff {vout : List CTxOut} {required : Int} {payee : CMasternodePayee} :
    isPaid vout required payee = true ↔
      ∃ out ∈ vout, out.scriptPubKey = payee.scriptPubKey ∧ required ≤ out.nValue := by
  unfold isPaid
  simp only [any_eq_true, Bool.and_eq_true, beq_iff_eq, decide_eq_true_eq]
  refine exists_congr fun out => and_congr_right fun _ => and_congr_left fun _ => ?_
  exact eq_comm

/-- The levels of a coinstake are paid exactly if each is served. -/
theorem levelsPaid_iff (fee : DevFeeOutput env devFeeOut) (nonneg : 0 ≤ value)
    {block : CMasternodeBlockPayees}
    (found : env.payments.mapMasternodeBlocks.lookup (env.chainHeight + 1) = some block) :
    LevelsPaid (outputsWith env stake value devFeeOut)
        (env.masternodePayment · (requiredReward env value)) block.vecPayments ↔
      ∀ payee ∈ block.vecPayments, payee.Qualified →
        LevelServed env stake value block.vecPayments payee.mnlevel := by
  obtain ⟨requiredNonneg, requiredLe⟩ := @requiredReward_bounds env value stake nonneg
  have share : ∀ mnlevel, env.masternodePayment mnlevel (requiredReward env value) ≤
      env.masternodePayment mnlevel (sharedReward env stake value) := fun mnlevel =>
    getMasternodePayment_mono requiredNonneg requiredLe
  refine forall_congr' fun payee => forall_congr' fun member => forall_congr' fun qualified => ?_
  by_cases direct : payee.mnlevel ∈ CMasternode.levels ∧
      env.masternodePayment payee.mnlevel (sharedReward env stake value) ≠ 0
  · -- the producer pays the payee with the most votes, who has enough of them
    have served : LevelServed env stake value block.vecPayments payee.mnlevel := Or.inl direct
    simp only [served, iff_true]
    obtain ⟨best, inside, enough, level, preferred⟩ := getPayee_qualified block member qualified
    refine ⟨best, inside, enough, level, isPaid_iff.mpr
      ⟨⟨env.masternodePayment payee.mnlevel (sharedReward env stake value), best.scriptPubKey⟩,
        ?_, rfl, share payee.mnlevel⟩⟩
    have payeeOfLevel : levelPayee env payee.mnlevel = some best.scriptPubKey := by
      unfold levelPayee getBlockPayee
      rw [found, Option.bind_some, preferred]
    unfold outputsWith
    simp only [mem_cons, mem_append]
    exact Or.inr (Or.inr (Or.inl (Or.inr (mem_levelOutputs_iff.mpr
      ⟨payee.mnlevel, direct.1, direct.2, payeeOfLevel, rfl⟩))))
  -- the producer makes no output for the level, and the validator requires nothing
  have zero : env.masternodePayment payee.mnlevel (requiredReward env value) = 0 := by
    have low : 0 ≤ env.masternodePayment payee.mnlevel (requiredReward env value) :=
      getMasternodePayment_nonneg requiredNonneg
    have high := share payee.mnlevel
    by_cases inside : payee.mnlevel ∈ CMasternode.levels
    · have none := not_not.mp fun some => direct ⟨inside, some⟩
      omega
    · exact getMasternodePayment_outside inside
  have served : LevelServed env stake value block.vecPayments payee.mnlevel ↔
      ∃ paid ∈ block.vecPayments, paid.Qualified ∧ paid.mnlevel = payee.mnlevel ∧
        PaysScript env stake value paid.scriptPubKey := or_iff_right direct
  rw [served]
  refine exists_congr fun paid => and_congr_right fun _ => and_congr_right fun _ =>
    and_congr_right fun _ => ?_
  show isPaid _ (env.masternodePayment payee.mnlevel (requiredReward env value)) paid = true ↔ _
  rw [zero, isPaid_iff]
  exact paysScript_iff fee nonneg paid.scriptPubKey

end Served

/-! ## The validators -/

section Validators

variable {env : RewardEnv} {stake : Stake} {value : Int} {devFeeOut : List CTxOut}

/-- Before the reward update the first output to the dev-fee address is large enough: there is
such an address, and a stake that goes to it leaves the fee to its output. -/
def DevFeeFirst (env : RewardEnv) (stake : Stake) (value : Int) : Prop :=
  (devFeeAddress env.params env.pastUpdate).isSome = true ∧
    (env.paysDevFee ⟨0, stake.scriptPubKeyOut⟩ = true → env.sporkDevFee value ≤
      stake.outputValue (stakeCredit env stake (sharedReward env stake value)))

theorem findsDevFee_iff {devFeeFund : Int} (enough : env.sporkDevFee value ≤ devFeeFund) :
    findsDevFee env (outputsWith env stake value [⟨devFeeFund, env.devFeeScript⟩])
        (env.sporkDevFee value) = true ↔ DevFeeFirst env stake value := by
  have marker : env.paysDevFee ⟨0, []⟩ = false := by
    unfold paysDevFee
    split
    · rfl
    · rfl
  have stakePays : ∀ nValue, env.paysDevFee ⟨nValue, stake.scriptPubKeyOut⟩ =
      env.paysDevFee ⟨0, stake.scriptPubKeyOut⟩ := fun _ => rfl
  unfold findsDevFee DevFeeFirst outputsWith
  cases found : devFeeAddress env.params env.pastUpdate with
  | none =>
    have never : ∀ out, env.paysDevFee out = false := by
      intro out
      unfold paysDevFee
      rw [found]
    rw [List.find?_eq_none.mpr fun out _ => by rw [never]; exact Bool.false_ne_true]
    simp
  | some address =>
    have feePays := env.paysDevFee_devFeeScript found devFeeFund
    rw [List.find?_cons, marker]
    simp only [List.find?_cons, stakePays, Option.isSome_some, true_and, cons_append]
    cases env.paysDevFee ⟨0, stake.scriptPubKeyOut⟩ with
    | true => simp
    | false => simp [feePays, enough]

theorem Stake.nFees_eq (stake : Stake) :
    stake.nFees = (stake.vtx.map FeeTransaction.valueIn).sum -
      (stake.vtx.map FeeTransaction.valueOut).sum := by
  unfold nFees
  induction stake.vtx with
  | nil => rfl
  | cons tx vtx ih =>
    simp only [map_cons, sum_cons, ih]
    omega

theorem nMint_outputsWith {devFee : Int}
    (total : (devFeeOut.map CTxOut.nValue).sum + sharedReward env stake value =
      value + stake.nFees + devFee) :
    stake.nMint (outputsWith env stake value devFeeOut) = value + devFee := by
  have split := stake.splitOutputs_sum (stakeCredit env stake (sharedReward env stake value))
  have fees := stake.nFees_eq
  unfold Stake.nMint outputsWith
  simp only [map_cons, map_append, sum_cons, sum_append, levelOutputs_sum]
  unfold stakeCredit at split ⊢
  omega

variable {block : CMasternodeBlockPayees}

/-- The payees take a coinstake exactly if the dev fee is found where it is looked for and every
level with a qualified payee is served. -/
theorem isTransactionValid_outputsWith_iff (hvalue : env.blockValue env.chainHeight = some value)
    (nonneg : 0 ≤ value) (made : MadeDevFee env value devFeeOut)
    (found : env.payments.mapMasternodeBlocks.lookup (env.chainHeight + 1) = some block)
    (qualified : ∃ payee ∈ block.vecPayments, payee.Qualified) (txNew : CTransaction) :
    block.isTransactionValid env
        { txNew with vout := outputsWith env stake value devFeeOut } = some true ↔
      (env.pastUpdate = false → 0 < env.devFee → DevFeeFirst env stake value) ∧
        ∀ payee ∈ block.vecPayments, payee.Qualified →
          LevelServed env stake value block.vecPayments payee.mnlevel := by
  have fee : DevFeeOutput env devFeeOut := by
    rcases made with ⟨rfl, none⟩ | ⟨devFeeFund, rfl, feeNonneg, some, -⟩
    · exact ⟨nofun, by simp [none]⟩
    · refine ⟨fun out member => ?_, by simp [some]⟩
      obtain rfl := mem_singleton.mp member
      exact ⟨rfl, feeNonneg⟩
  have paid := @levelsPaid_iff env stake value _ fee nonneg block found
  rw [← payeesPaid_iff qualified] at paid
  have selected : (selectSignatures block.vecPayments).size ≠ 0 := by
    rw [Ne, selectSignatures_size]
    push Not
    exact qualified
  have height : block.nBlockHeight - 1 = env.chainHeight := by
    rw [env.filed _ _ found]
    omega
  simp only [CMasternodeBlockPayees.isTransactionValid, if_neg selected, height, hvalue,
    Option.bind_some]
  cases past : env.pastUpdate with
  | true =>
    have required : requiredReward env value = value :=
      if_neg fun both => Bool.noConfusion (past.symm.trans both.1)
    rw [required] at paid
    obtain ⟨devFeeFund, due, -⟩ := exists_devFeeValue past env.chainHeight
    have notRefused : refusesDevFee env (outputsWith env stake value devFeeOut) devFeeFund =
        some false := by
      unfold refusesDevFee
      rcases made with ⟨rfl, none⟩ | ⟨fund, rfl, -, -, same, -⟩
      · have zero : ¬ devFeeFund > 0 := by
          unfold makesDevFee at none
          rw [if_pos past, due] at none
          exact of_decide_eq_false none
        exact if_neg zero
      obtain rfl := Option.some.inj (due.symm.trans (same past))
      by_cases positive : devFeeFund > 0
      · rw [if_pos positive]
        simp [outputsWith]
      · exact if_neg positive
    simp only [if_true, due, Option.bind_some, notRefused, Option.map_some, Bool.not_false,
      Bool.true_and, Option.some.injEq, paid, reduceCtorEq, false_implies, true_and]
  | false =>
    simp only [Bool.false_eq_true, if_false, true_implies]
    by_cases on : 0 < env.devFee
    · have required : requiredReward env value = value - env.sporkDevFee value :=
        if_pos ⟨past, on⟩
      rw [required] at paid
      obtain ⟨devFeeFund, rfl, enough⟩ : ∃ devFeeFund,
          devFeeOut = [⟨devFeeFund, env.devFeeScript⟩] ∧ env.sporkDevFee value ≤ devFeeFund := by
        rcases made with ⟨-, none⟩ | ⟨devFeeFund, whole, -, -, -, enough⟩
        · unfold makesDevFee at none
          rw [past] at none
          exact absurd on (of_decide_eq_false none)
        · exact ⟨devFeeFund, whole, enough past⟩
      rw [if_pos on]
      simp only [Option.some.injEq, Bool.and_eq_true, findsDevFee_iff enough, paid, on,
        true_implies]
    · have required : requiredReward env value = value := if_neg fun both => on both.2
      rw [required] at paid
      rw [if_neg on]
      simp only [Option.some.injEq, paid, on, false_implies, true_and]

/-- The votes for the next height: where a payee of it has six, each level with such a payee is
served, and the dev fee comes first among the outputs to its address. -/
def PaymentsServed (env : RewardEnv) (stake : Stake) : Prop :=
  ∀ block value, env.payments.mapMasternodeBlocks.lookup (env.chainHeight + 1) = some block →
    env.blockValue env.chainHeight = some value →
      (∃ payee ∈ block.vecPayments, payee.Qualified) →
        (env.pastUpdate = false → 0 < env.devFee → DevFeeFirst env stake value) ∧
          ∀ payee ∈ block.vecPayments, payee.Qualified →
            LevelServed env stake value block.vecPayments payee.mnlevel

/-- A block without qualified payees takes every coinstake. -/
theorem isTransactionValid_of_unqualified
    (unqualified : ¬ ∃ payee ∈ block.vecPayments, payee.Qualified) (txNew : CTransaction) :
    block.isTransactionValid env txNew = some true := by
  have empty : (selectSignatures block.vecPayments).size = 0 := by
    rw [selectSignatures_size]
    push Not at unqualified
    exact unqualified
  simp only [CMasternodeBlockPayees.isTransactionValid, if_pos empty]

theorem isTransactionValid_of_lookup {nBlockHeight : Int}
    (found : env.payments.mapMasternodeBlocks.lookup nBlockHeight = some block)
    (txNew : CTransaction) :
    isTransactionValid env txNew nBlockHeight = block.isTransactionValid env txNew := by
  unfold isTransactionValid
  rw [found]

/-- The coinstake that is made, and that its amount passes. -/
theorem exists_coinStakeOutputs (env : RewardEnv) (stake : Stake) :
    ∃ value devFeeOut limit, env.blockValue env.chainHeight = some value ∧ 0 ≤ value ∧
      coinStakeOutputs env stake = some (outputsWith env stake value devFeeOut) ∧
      MadeDevFee env value devFeeOut ∧
      mintLimit env.params env.chain.mapBlockIndex env.chain.chainActive env.chainHeight =
        some limit ∧
      isBlockValueValid env.chain.chainActive limit
        (stake.nMint (outputsWith env stake value devFeeOut)) = true := by
  obtain ⟨value, hvalue, nonneg⟩ := env.exists_blockValue env.chainHeight
  obtain ⟨devFee, hfee⟩ : ∃ devFee, env.devFeeValue env.chainHeight = some devFee := by
    cases past : env.pastUpdate with
    | true =>
      obtain ⟨devFee, found, -⟩ := exists_devFeeValue past env.chainHeight
      exact ⟨devFee, found⟩
    | false => exact ⟨0, devFeeValue_of_not_past past _⟩
  obtain ⟨devFeeOut, fee, made, total⟩ := @devFeeOutput_eq env value stake nonneg
  refine ⟨value, devFeeOut, value + devFee, hvalue, nonneg, coinStakeOutputs_eq hvalue fee, made,
    ?_, ?_⟩
  · unfold RewardEnv.blockValue at hvalue
    unfold devFeeValue at hfee
    unfold mintLimit
    rw [hvalue, hfee]
    rfl
  rw [hfee] at total
  unfold isBlockValueValid
  rw [nMint_outputsWith total]
  split
  · rfl
  · simp

/-- A coinstake passes the checks of the next height exactly if every level with a qualified
payee is served. -/
theorem coinStake_passes_iff (env : RewardEnv) (stake : Stake) (txNew : CTransaction) :
    (∃ vout limit, coinStakeOutputs env stake = some vout ∧
      mintLimit env.params env.chain.mapBlockIndex env.chain.chainActive env.chainHeight =
        some limit ∧
      isTransactionValid env { txNew with vout } (env.chainHeight + 1) = some true ∧
      isBlockValueValid env.chain.chainActive limit (stake.nMint vout) = true) ↔
        PaymentsServed env stake := by
  obtain ⟨value, devFeeOut, limit, hvalue, nonneg, outputs, made, hlimit, amount⟩ :=
    exists_coinStakeOutputs env stake
  have payees : (∃ vout limit, coinStakeOutputs env stake = some vout ∧
      mintLimit env.params env.chain.mapBlockIndex env.chain.chainActive env.chainHeight =
        some limit ∧
      isTransactionValid env { txNew with vout } (env.chainHeight + 1) = some true ∧
      isBlockValueValid env.chain.chainActive limit (stake.nMint vout) = true) ↔
      isTransactionValid env { txNew with vout := outputsWith env stake value devFeeOut }
        (env.chainHeight + 1) = some true := by
    constructor
    · rintro ⟨vout, _, made, -, valid, -⟩
      obtain rfl := Option.some.inj (outputs.symm.trans made)
      exact valid
    · intro valid
      exact ⟨_, limit, outputs, hlimit, valid, amount⟩
  rw [payees]
  unfold isTransactionValid PaymentsServed
  cases found : env.payments.mapMasternodeBlocks.lookup (env.chainHeight + 1) with
  | none => simp
  | some block =>
    by_cases qualified : ∃ payee ∈ block.vecPayments, payee.Qualified
    · rw [isTransactionValid_outputsWith_iff hvalue nonneg made found qualified txNew]
      constructor
      · intro served other value' same hvalue' _
        obtain rfl := Option.some.inj same
        obtain rfl := Option.some.inj (hvalue.symm.trans hvalue')
        exact served
      · intro served
        exact served block value rfl hvalue qualified
    · refine iff_of_true (isTransactionValid_of_unqualified qualified _) ?_
      intro other value' same _ some
      obtain rfl := Option.some.inj same
      exact absurd some qualified

end Validators

/-! ## A height without a subsidy -/

def unpaidBlock : CMasternodeBlockPayees := { dueBlock with nBlockHeight := 685101 }

def unpaidVotes : CMasternodePayments :=
  { CMasternodePayments.init with
    mapMasternodeBlocks := AList.insert 685101 unpaidBlock ∅ }

theorem unpaidVotes_filed : ∀ nBlockHeight block,
    unpaidVotes.mapMasternodeBlocks.lookup nBlockHeight = some block →
      block.nBlockHeight = nBlockHeight := by
  intro nBlockHeight block found
  unfold unpaidVotes at found
  by_cases equal : nBlockHeight = 685101
  · subst equal
    obtain rfl := Option.some.inj found
    rfl
  · rw [AList.lookup_insert_ne equal] at found
    cases found

def unpaidEnv : RewardEnv := sampleRewardEnv 685100 (by decide) 0 unpaidVotes unpaidVotes_filed

def unpaidStake : Stake where
  scriptPubKeyOut := [0x52]
  nCredit := 100 * COIN
  positive := by decide
  nStakeSplitThreshold := 2000
  vtx := []

theorem unpaidEnv_height : unpaidEnv.chainHeight = 685100 :=
  sampleRewardEnv_height 685100 _ 0 unpaidVotes unpaidVotes_filed

theorem unpaidEnv_past : unpaidEnv.pastUpdate = true := by
  unfold pastUpdate
  rw [unpaidEnv_height]
  decide

theorem unpaidEnv_value : unpaidEnv.blockValue unpaidEnv.chainHeight = some 0 := by
  rw [blockValue_of_past unpaidEnv_past, unpaidEnv_height]
  decide

/-- No masternode gets a share of nothing. -/
theorem unpaidEnv_share (mnlevel : Nat) :
    unpaidEnv.masternodePayment mnlevel (sharedReward unpaidEnv unpaidStake 0) = 0 := by
  have nothing : sharedReward unpaidEnv unpaidStake 0 = 0 := by
    unfold sharedReward
    exact if_neg fun both => Bool.noConfusion (unpaidEnv_past.symm.trans both.1)
  rw [nothing]
  unfold masternodePayment getMasternodePayment Binary64.mul
  rw [Int.cast_zero, Binary64.nearest_zero, zero_mul, Binary64.nearest_zero]
  rfl

theorem unpaidEnv_makesNoDevFee : unpaidEnv.makesDevFee = false := by
  unfold makesDevFee
  rw [if_pos unpaidEnv_past, devFeeValue_of_past unpaidEnv_past, unpaidEnv_height]
  decide

/-- Without a subsidy the producer makes no output for the masternode of level 1, which the
validator asks for. -/
theorem coinStake_rejected_without_subsidy :
    ¬ ∀ env stake (txNew : CTransaction), ∃ vout limit, coinStakeOutputs env stake = some vout ∧
      mintLimit env.params env.chain.mapBlockIndex env.chain.chainActive env.chainHeight =
        some limit ∧
      isTransactionValid env { txNew with vout } (env.chainHeight + 1) = some true ∧
      isBlockValueValid env.chain.chainActive limit (stake.nMint vout) = true := by
  intro claim
  obtain ⟨vout, -, outputs, -, valid, -⟩ := claim unpaidEnv unpaidStake .empty
  obtain ⟨value, devFeeOut, -, hvalue, nonneg, outputs', made, -⟩ :=
    exists_coinStakeOutputs unpaidEnv unpaidStake
  obtain rfl := Option.some.inj (outputs.symm.trans outputs')
  obtain rfl := Option.some.inj (unpaidEnv_value.symm.trans hvalue)
  have found : unpaidEnv.payments.mapMasternodeBlocks.lookup (unpaidEnv.chainHeight + 1) =
      some unpaidBlock := by
    have next : unpaidEnv.chainHeight + 1 = 685101 := by
      rw [unpaidEnv_height]
      norm_num
    rw [next]
    exact AList.lookup_insert _
  have qualified : ∃ payee ∈ unpaidBlock.vecPayments, payee.Qualified :=
    ⟨_, mem_cons_self, by decide⟩
  rw [isTransactionValid_of_lookup found] at valid
  have paid := (isTransactionValid_outputsWith_iff hvalue nonneg made found qualified .empty).mp
    valid
  have served := paid.2 ⟨[0x51], 1, 6⟩ (mem_singleton.mpr rfl) (by decide)
  rcases served with ⟨-, share⟩ | ⟨paid, member, -, -, pays⟩
  · exact share (unpaidEnv_share _)
  obtain rfl := mem_singleton.mp member
  rcases pays with marker | stake | ⟨fee, -⟩ | ⟨mnlevel, -, share, -⟩
  · exact absurd marker (by decide)
  · exact absurd stake (by decide)
  · rw [unpaidEnv_makesNoDevFee] at fee
    cases fee
  · exact share (unpaidEnv_share mnlevel)

end Esbcoin
