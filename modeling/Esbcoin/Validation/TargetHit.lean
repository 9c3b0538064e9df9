import Esbcoin.Validation.WorkRequired

namespace Esbcoin

/-- A hash below the weight of the stake times the target. -/
def MeetsTarget (hashProofOfStake : UInt256) (nValueIn : Int) (bnTargetPerCoinDay : UInt256) :
    Prop :=
  (hashProofOfStake.toNat : Int) < nValueIn / 100 * bnTargetPerCoinDay.toNat

/-- The product needs no more than 256 bits. -/
def ProductFits (nValueIn : Int) (bnTargetPerCoinDay : UInt256) : Prop :=
  nValueIn / 100 * bnTargetPerCoinDay.toNat < 2 ^ 256

/-- The product in 256 bits. -/
def wrappedProduct (nValueIn : Int) (bnTargetPerCoinDay : UInt256) : Nat :=
  (nValueIn / 100).toNat * bnTargetPerCoinDay.toNat % 2 ^ 256

variable {nValueIn : Int} {bnTargetPerCoinDay : UInt256}

theorem stakeTargetHit_iff (nonneg : 0 ≤ nValueIn) (small : nValueIn < 2 ^ 63)
    (hashProofOfStake : UInt256) :
    stakeTargetHit hashProofOfStake nValueIn bnTargetPerCoinDay = true ↔
      hashProofOfStake.toNat < wrappedProduct nValueIn bnTargetPerCoinDay := by
  have value : (nValueIn % 2 ^ 64).toNat / 100 = (nValueIn / 100).toNat := by omega
  have weight : (nValueIn / 100).toNat < 2 ^ 256 := by
    have : (nValueIn / 100).toNat < 2 ^ 63 := by omega
    exact lt_trans this (by decide)
  unfold stakeTargetHit wrappedProduct
  rw [decide_eq_true_iff, value, BitVec.lt_def, BitVec.toNat_mul, BitVec.toNat_ofNat,
    Nat.mod_eq_of_lt weight]

/-- The product over the integers. -/
theorem product_eq (nonneg : 0 ≤ nValueIn) (bnTargetPerCoinDay : UInt256) :
    nValueIn / 100 * bnTargetPerCoinDay.toNat =
      ((nValueIn / 100).toNat * bnTargetPerCoinDay.toNat : Nat) := by
  rw [Int.natCast_mul, Int.toNat_of_nonneg (by omega)]

theorem wrappedProduct_of_fits (nonneg : 0 ≤ nValueIn)
    (fits : ProductFits nValueIn bnTargetPerCoinDay) :
    (wrappedProduct nValueIn bnTargetPerCoinDay : Int) =
      nValueIn / 100 * bnTargetPerCoinDay.toNat := by
  unfold ProductFits at fits
  rw [product_eq nonneg] at fits ⊢
  rw [wrappedProduct, Nat.mod_eq_of_lt (by exact_mod_cast fits)]

/-- A hit is one over the integers: the product only loses by wrapping. -/
theorem meetsTarget_of_hit (nonneg : 0 ≤ nValueIn) (small : nValueIn < 2 ^ 63)
    {hashProofOfStake : UInt256}
    (hit : stakeTargetHit hashProofOfStake nValueIn bnTargetPerCoinDay = true) :
    MeetsTarget hashProofOfStake nValueIn bnTargetPerCoinDay := by
  have below := (stakeTargetHit_iff nonneg small hashProofOfStake).mp hit
  have wraps : wrappedProduct nValueIn bnTargetPerCoinDay ≤
      (nValueIn / 100).toNat * bnTargetPerCoinDay.toNat := Nat.mod_le _ _
  unfold MeetsTarget
  rw [product_eq nonneg]
  exact_mod_cast lt_of_lt_of_le below wraps

/-- The hits are those over the integers. -/
def ExactHits (nValueIn : Int) (bnTargetPerCoinDay : UInt256) : Prop :=
  ∀ hashProofOfStake, stakeTargetHit hashProofOfStake nValueIn bnTargetPerCoinDay = true ↔
    MeetsTarget hashProofOfStake nValueIn bnTargetPerCoinDay

/-- No hit of a smaller stake or target is lost. -/
def KeepsHits (nValueIn : Int) (bnTargetPerCoinDay : UInt256) : Prop :=
  ∀ nValueIn' bnTarget', 0 ≤ nValueIn' → nValueIn' ≤ nValueIn → bnTarget' ≤ bnTargetPerCoinDay →
    ∀ hashProofOfStake, stakeTargetHit hashProofOfStake nValueIn' bnTarget' = true →
      stakeTargetHit hashProofOfStake nValueIn bnTargetPerCoinDay = true

theorem exactHits_of_fits (nonneg : 0 ≤ nValueIn) (small : nValueIn < 2 ^ 63)
    (fits : ProductFits nValueIn bnTargetPerCoinDay) :
    ExactHits nValueIn bnTargetPerCoinDay := by
  intro hashProofOfStake
  rw [stakeTargetHit_iff nonneg small, MeetsTarget, ← wrappedProduct_of_fits nonneg fits]
  exact Int.ofNat_lt.symm

theorem keepsHits_of_fits (nonneg : 0 ≤ nValueIn) (small : nValueIn < 2 ^ 63)
    (fits : ProductFits nValueIn bnTargetPerCoinDay) :
    KeepsHits nValueIn bnTargetPerCoinDay := by
  intro nValueIn' bnTarget' nonneg' less lower hashProofOfStake hit
  have meets := meetsTarget_of_hit nonneg' (by omega) hit
  apply (exactHits_of_fits nonneg small fits hashProofOfStake).mpr
  refine Int.lt_of_lt_of_le meets ?_
  have weights : nValueIn' / 100 ≤ nValueIn / 100 := Int.ediv_le_ediv (by omega) less
  have targets : (bnTarget'.toNat : Int) ≤ bnTargetPerCoinDay.toNat :=
    Int.ofNat_le.mpr (BitVec.le_def.mp lower)
  exact Int.mul_le_mul weights targets (Int.natCast_nonneg _) (by omega)

/-- A stake meets its target exactly as over the integers, whatever the hash, and keeps the hits of
smaller ones, if and only if the product of weight and target fits in 256 bits. -/
theorem exact_target_iff (nonneg : 0 ≤ nValueIn) (small : nValueIn < 2 ^ 63)
    (bnTargetPerCoinDay : UInt256) :
    ExactHits nValueIn bnTargetPerCoinDay ∧ KeepsHits nValueIn bnTargetPerCoinDay ↔
      ProductFits nValueIn bnTargetPerCoinDay := by
  constructor
  · rintro ⟨exact, -⟩
    by_contra wraps
    unfold ProductFits at wraps
    -- the largest hash is below a product that does not fit
    have meets : MeetsTarget (BitVec.allOnes 256) nValueIn bnTargetPerCoinDay := by
      unfold MeetsTarget
      rw [BitVec.toNat_allOnes]
      omega
    have hit := (stakeTargetHit_iff nonneg small _).mp ((exact _).mpr meets)
    have wrapped : wrappedProduct nValueIn bnTargetPerCoinDay < 2 ^ 256 :=
      Nat.mod_lt _ (by decide)
    rw [BitVec.toNat_allOnes] at hit
    omega
  · intro fits
    exact ⟨exactHits_of_fits nonneg small fits, keepsHits_of_fits nonneg small fits⟩

/-! ## The target of a chain that keeps its spacing -/

def easiestBlock (nHeight : Int) (nTime : UInt32) : CBlockIndex :=
  { phashBlock := none, nHeight, nTime, nBits := 0x1e00ffff }

def easiestTarget : UInt256 :=
  setCompact (getNextWorkRequired mainParams 300 [easiestBlock 300 1060, easiestBlock 299 1000])

theorem easiest_target_fits :
    ExactHits (16 * COIN) easiestTarget ∧ KeepsHits (16 * COIN) easiestTarget :=
  (exact_target_iff (by decide) (by decide) easiestTarget).mpr (by
    unfold ProductFits
    decide +kernel)

/-- With 17 coins a hash misses that 16 coins hit. -/
theorem larger_stake_misses :
    ∃ hashProofOfStake, 0 ≤ 16 * COIN ∧ 17 * COIN ≤ mainParams.maxMoneyOut ∧
      stakeTargetHit hashProofOfStake (16 * COIN) easiestTarget = true ∧
      MeetsTarget hashProofOfStake (17 * COIN) easiestTarget ∧
      stakeTargetHit hashProofOfStake (17 * COIN) easiestTarget = false := by
  refine ⟨BitVec.ofNat 256 (2 ^ 255), by decide, by decide, ?_, ?_, ?_⟩
  · decide +kernel
  · unfold MeetsTarget
    decide +kernel
  · decide +kernel

end Esbcoin
