import Esbcoin.CompactValue
import Esbcoin.Validation.WorkRequired

/-!
# The target above two blocks

Where stakes extend a chain, `GetNextWorkRequired` moves the target by the spacing of the last two
blocks.
-/

namespace Esbcoin

/-! ## The formula over the integers -/

/-- `bnTargetLimit` as a number. -/
def targetLimit : Nat := 2 ^ 232 - 1

/-- The easiest target that the compact form keeps. -/
def keptLimit : Nat := 2 ^ 232 - 2 ^ 216

/-- A target that is zero or above the limit becomes the limit. -/
def limited (target : Nat) : Nat := if target = 0 then targetLimit else min targetLimit target

/-- The quotient of a product by `41 * s` is limited: it is zero, or no more is kept of it than of
the limit. -/
def Capped (s product : Nat) : Prop := product < 41 * s ∨ 41 * s * keptLimit ≤ product

variable {s n a t : Nat}

theorem capped_iff (positive : 0 < s) (product : Nat) :
    Capped s product ↔ product / (41 * s) = 0 ∨ keptLimit ≤ product / (41 * s) := by
  unfold Capped
  rw [Nat.div_eq_zero_iff_lt (by omega), Nat.le_div_iff_mul_le (by omega), Nat.mul_comm keptLimit]

theorem limited_le (target : Nat) : limited target ≤ targetLimit := by
  unfold limited
  split <;> omega

theorem writtenSize_limit (low : keptLimit ≤ n) (high : n ≤ targetLimit) : writtenSize n = 30 := by
  unfold keptLimit at low
  unfold targetLimit at high
  have nonzero : n ≠ 0 := by omega
  have := (Nat.le_log2 (k := 231) nonzero).mpr (by omega)
  have := (Nat.log2_lt (k := 232) nonzero).mpr (by omega)
  rw [writtenSize, if_neg nonzero]
  omega

/-- The limit and what is kept of it have one compact form. -/
theorem keptTop_limit (low : keptLimit ≤ n) (high : n ≤ targetLimit) : keptTop n = keptLimit := by
  rw [keptTop, writtenSize_limit low high]
  unfold keptLimit at low ⊢
  unfold targetLimit at high
  omega

theorem getCompact_limit {v : UInt256} (low : keptLimit ≤ v.toNat) (high : v.toNat ≤ targetLimit) :
    getCompact v false = 0x1e00ffff := by
  apply UInt32.toNat_inj.mp
  rw [getCompact_toNat, writtenMantissa, topBytes, writtenSize_limit low high]
  unfold keptLimit at low
  unfold targetLimit at high
  have : v.toNat / 256 ^ (30 - 3) = 65535 := by omega
  rw [if_neg (by decide), this]
  rfl

theorem limited_eq_of_uncapped {target : Nat} (nonzero : target ≠ 0) (low : target < keptLimit) :
    limited target = target := by
  unfold limited targetLimit
  unfold keptLimit at low
  rw [if_neg nonzero]
  omega

theorem keptLimit_le_limited {target : Nat} (capped : target = 0 ∨ keptLimit ≤ target) :
    keptLimit ≤ limited target := by
  have : keptLimit ≤ targetLimit := by decide
  unfold limited
  split
  · exact this
  · omega

/-! ## The two products -/

/-- The factor of a retarget: 39 spacings and twice the actual one. -/
def retargetFactor (s a : Nat) : Nat := 39 * s + 2 * a

/-- The next target over the integers. -/
def exactTarget (t s a : Nat) : Nat := limited (t * retargetFactor s a / (41 * s))

/-- The product as the code cuts it. -/
def cutProduct (t s a : Nat) : Nat := t * (retargetFactor s a % 2 ^ 32) % 2 ^ 256

/-- The next target as the code computes it. -/
def cutTarget (t s a : Nat) : Nat := limited (cutProduct t s a / (41 * s))

/-- Nothing is cut off the product, or both results are capped. -/
def RetargetFits (t s a : Nat) : Prop :=
  cutProduct t s a = t * retargetFactor s a ∨
    Capped s (t * retargetFactor s a) ∧ Capped s (cutProduct t s a)

/-- The compact form of a number. -/
def compactOf (n : Nat) : UInt32 := getCompact (BitVec.ofNat 256 n) false

theorem compactValue_compactOf (fits : n < 2 ^ 256) : compactValue (compactOf n) = keptTop n := by
  rw [compactOf, compactValue_getCompact, BitVec.toNat_ofNat, Nat.mod_eq_of_lt fits]

theorem limited_lt (target : Nat) : limited target < 2 ^ 256 := by
  have := limited_le target
  unfold targetLimit at this
  omega

/-- Where the factor is cut, what is left of the product is at most half of it. -/
theorem two_mul_cutProduct_le (small : t * retargetFactor s a < 2 ^ 256)
    (cut : cutProduct t s a ≠ t * retargetFactor s a) :
    2 * cutProduct t s a ≤ t * retargetFactor s a := by
  have wide : 2 ^ 32 ≤ retargetFactor s a := by
    by_contra narrow
    apply cut
    rw [cutProduct, Nat.mod_eq_of_lt (Nat.lt_of_not_le narrow), Nat.mod_eq_of_lt small]
  have half : 2 * (retargetFactor s a % 2 ^ 32) ≤ retargetFactor s a := by omega
  calc 2 * cutProduct t s a
      ≤ 2 * (t * (retargetFactor s a % 2 ^ 32)) := Nat.mul_le_mul_left _ (Nat.mod_le _ _)
    _ = t * (2 * (retargetFactor s a % 2 ^ 32)) := by rw [Nat.mul_left_comm]
    _ ≤ t * retargetFactor s a := Nat.mul_le_mul_left _ half

/-- Two results have one compact form if they are equal or both capped. -/
theorem compactOf_cutTarget (positive : 0 < s) (fits : RetargetFits t s a) :
    compactOf (cutTarget t s a) = compactOf (exactTarget t s a) := by
  rcases fits with whole | ⟨exactCapped, cutCapped⟩
  · rw [cutTarget, exactTarget, whole]
  have form : ∀ target, keptLimit ≤ limited target →
      compactOf (limited target) = 0x1e00ffff := by
    intro target low
    have fits := limited_lt target
    apply getCompact_limit
    · rw [BitVec.toNat_ofNat, Nat.mod_eq_of_lt fits]
      exact low
    · rw [BitVec.toNat_ofNat, Nat.mod_eq_of_lt fits]
      exact limited_le target
  rw [cutTarget, exactTarget,
    form _ (keptLimit_le_limited ((capped_iff positive _).mp cutCapped)),
    form _ (keptLimit_le_limited ((capped_iff positive _).mp exactCapped))]

theorem retargetFits_of_compactOf (positive : 0 < s) (slow : s ≤ 120)
    (equal : compactOf (cutTarget t s a) = compactOf (exactTarget t s a)) : RetargetFits t s a := by
  by_cases whole : cutProduct t s a = t * retargetFactor s a
  · exact Or.inl whole
  have kept : keptTop (cutTarget t s a) = keptTop (exactTarget t s a) := by
    have exactFits : exactTarget t s a < 2 ^ 256 := limited_lt _
    have cutFits : cutTarget t s a < 2 ^ 256 := limited_lt _
    rw [← compactValue_compactOf exactFits, ← compactValue_compactOf cutFits, equal]
  have exactCapped := capped_iff positive (t * retargetFactor s a)
  have cutCapped := capped_iff positive (cutProduct t s a)
  have keptOf : ∀ target, (target = 0 ∨ keptLimit ≤ target) →
      keptTop (limited target) = keptLimit :=
    fun target capped => keptTop_limit (keptLimit_le_limited capped) (limited_le target)
  have below : ∀ target, ¬ (target = 0 ∨ keptLimit ≤ target) →
      limited target = target ∧ keptTop (limited target) < keptLimit := by
    intro target uncapped
    have value := limited_eq_of_uncapped (by omega : target ≠ 0) (by omega)
    have := keptTop_le target
    rw [value]
    exact ⟨rfl, by omega⟩
  right
  rw [exactCapped, cutCapped]
  unfold cutTarget exactTarget at kept
  by_cases first : t * retargetFactor s a / (41 * s) = 0 ∨
      keptLimit ≤ t * retargetFactor s a / (41 * s)
  · by_cases second : cutProduct t s a / (41 * s) = 0 ∨ keptLimit ≤ cutProduct t s a / (41 * s)
    · exact ⟨first, second⟩
    · have := keptOf _ first
      have := (below _ second).2
      omega
  by_cases second : cutProduct t s a / (41 * s) = 0 ∨ keptLimit ≤ cutProduct t s a / (41 * s)
  · have := keptOf _ second
    have := (below _ first).2
    omega
  -- neither is capped: the exact quotient is at least twice the other
  exfalso
  have quotient : t * retargetFactor s a / (41 * s) < keptLimit := by omega
  have small : t * retargetFactor s a < 2 ^ 256 := by
    have := (Nat.div_lt_iff_lt_mul (by omega : 0 < 41 * s)).mp quotient
    have : keptLimit * (41 * s) ≤ keptLimit * (41 * 120) :=
      Nat.mul_le_mul_left _ (by omega)
    have : keptLimit * (41 * 120) < 2 ^ 256 := by decide
    omega
  have twice : 2 * (cutProduct t s a / (41 * s)) ≤ t * retargetFactor s a / (41 * s) :=
    Nat.le_trans (Nat.mul_div_le_mul_div_assoc _ _ _)
      (Nat.div_le_div_right (two_mul_cutProduct_le small whole))
  have more := lt_two_mul_keptTop (n := t * retargetFactor s a / (41 * s)) (by omega)
  have less := keptTop_le (cutProduct t s a / (41 * s))
  rw [(below _ first).1, (below _ second).1] at kept
  omega

/-! ## The target of a chain -/

/-- The last two blocks of a chain where stakes extend it, and the blocks below them. -/
structure StakeChain (params : CChainParams) where
  pindexLast : CBlockIndex
  pprev : CBlockIndex
  below : List CBlockIndex
  stakePhase : params.lastPOWBlock ≤ pindexLast.nHeight
  pastFirst : 24 ≤ pindexLast.nHeight

/-- Above the switch every block carries the bits that are required of it. -/
def CarriesRequired (params : CChainParams) (activeHeight : Int) : List CBlockIndex → Prop
  | pindex :: pprev :: below =>
    (params.lastPOWBlock ≤ pprev.nHeight →
      pindex.nBits = getNextWorkRequired params activeHeight (pprev :: below)) ∧
      CarriesRequired params activeHeight (pprev :: below)
  | _ => True

namespace StakeChain

variable {params : CChainParams} (activeHeight : Int) (chain : StakeChain params)

/-- The blocks, the last first. -/
def blocks : List CBlockIndex := chain.pindexLast :: chain.pprev :: chain.below

/-- The bits that are required above the chain. -/
def required : UInt32 := getNextWorkRequired params activeHeight chain.blocks

/-- The previous target, or the start target in the three blocks behind the switch. -/
def previousTarget : Nat :=
  if chain.pindexLast.nHeight ≤ params.lastPOWBlock + 2 then 2 ^ 252 - 1
  else (setCompact chain.pindexLast.nBits).toNat

/-- The target spacing. -/
def spacing : Nat := (stakeSpacing activeHeight chain.pindexLast.getBlockTime).toNat

/-- The spacing of the last two blocks, at least 1. -/
def actualSpacing : Nat :=
  if chain.pindexLast.getBlockTime < chain.pprev.getBlockTime then 1
  else (chain.pindexLast.getBlockTime - chain.pprev.getBlockTime).toNat

/-- The required bits are those of the formula. -/
def MeetsFormula : Prop :=
  chain.required activeHeight =
    compactOf (exactTarget chain.previousTarget (chain.spacing activeHeight) chain.actualSpacing)

/-- The retarget above this chain cuts nothing off that shows. -/
def Fits : Prop :=
  RetargetFits chain.previousTarget (chain.spacing activeHeight) chain.actualSpacing

end StakeChain

theorem mulBy_toNat (v : UInt256) (n : Nat) :
    (mulBy v n).toNat = v.toNat * (n % 2 ^ 32) % 2 ^ 256 := by
  have narrowed : ((n : Int) % 2 ^ 32).toNat = n % 2 ^ 32 := by omega
  rw [mulBy, narrowed, BitVec.toNat_mul, BitVec.toNat_ofNat,
    Nat.mod_eq_of_lt (by omega : n % 2 ^ 32 < 2 ^ 256)]

theorem divBy_toNat (v : UInt256) (small : n < 2 ^ 64) : (divBy v n).toNat = v.toNat / n := by
  have whole : ((n : Int) % 2 ^ 64).toNat = n := by omega
  rw [divBy, whole, BitVec.toNat_udiv, BitVec.toNat_ofNat,
    Nat.mod_eq_of_lt (by omega : n < 2 ^ 256)]

theorem limited_toNat (v : UInt256) :
    (if v = 0 ∨ stakeTargetLimit < v then stakeTargetLimit else v).toNat = limited v.toNat := by
  have limit : stakeTargetLimit.toNat = targetLimit := by decide +kernel
  have zero : v = 0 ↔ v.toNat = 0 := BitVec.toNat_inj.symm
  simp only [zero, BitVec.lt_def, limit, limited]
  by_cases none : v.toNat = 0
  · rw [if_pos (Or.inl none), if_pos none, limit]
  by_cases above : targetLimit < v.toNat
  · rw [if_pos (Or.inr above), if_neg none, limit]
    omega
  · rw [if_neg (by omega), if_neg none]
    omega

theorem stakeSpacing_bounds (activeHeight nBlockTime : Int) :
    60 ≤ stakeSpacing activeHeight nBlockTime ∧ stakeSpacing activeHeight nBlockTime ≤ 120 := by
  have fork : (CONSENSUS_FORK_PROTO_TIME.toNat : Int) = 1554746400 := rfl
  unfold stakeSpacing poSTargetSpacing
  rw [fork]
  split
  · split
    · omega
    · dsimp only
      omega
  · omega

namespace StakeChain

variable {params : CChainParams} (activeHeight : Int) (chain : StakeChain params)

theorem spacing_bounds : 60 ≤ chain.spacing activeHeight ∧ chain.spacing activeHeight ≤ 120 := by
  have := stakeSpacing_bounds activeHeight chain.pindexLast.getBlockTime
  unfold spacing
  omega

/-- The target of the code is the one of the cut product. -/
theorem stakeTarget_toNat :
    (stakeTarget params activeHeight chain.pindexLast (some chain.pprev)).toNat =
      cutTarget chain.previousTarget (chain.spacing activeHeight) chain.actualSpacing := by
  have bounds := stakeSpacing_bounds activeHeight chain.pindexLast.getBlockTime
  have spacing_eq : stakeSpacing activeHeight chain.pindexLast.getBlockTime =
      (chain.spacing activeHeight : Int) := by
    unfold spacing
    omega
  have interval : (chain.spacing activeHeight : Int) * 40 / chain.spacing activeHeight = 40 :=
    Int.mul_ediv_cancel_left _ (by omega)
  have actual : (if chain.pindexLast.getBlockTime - chain.pprev.getBlockTime < 0 then 1
      else chain.pindexLast.getBlockTime - chain.pprev.getBlockTime) =
      (chain.actualSpacing : Int) := by
    unfold actualSpacing
    split <;> split <;> omega
  have factor : ((40 - 1) * (chain.spacing activeHeight : Int) + chain.actualSpacing +
      chain.actualSpacing) =
      (retargetFactor (chain.spacing activeHeight) chain.actualSpacing : Nat) := by
    unfold retargetFactor
    omega
  have divisor : ((40 + 1) * (chain.spacing activeHeight : Int)) =
      (41 * chain.spacing activeHeight : Nat) := by
    omega
  have start : (if chain.pindexLast.nHeight ≥ params.lastPOWBlock ∧
      chain.pindexLast.nHeight ≤ params.lastPOWBlock + 2 then BitVec.allOnes 256 >>> 4
      else setCompact chain.pindexLast.nBits : UInt256).toNat = chain.previousTarget := by
    have phase := chain.stakePhase
    unfold previousTarget
    by_cases reset : chain.pindexLast.nHeight ≤ params.lastPOWBlock + 2
    · rw [if_pos ⟨phase, reset⟩, if_pos reset]
      decide +kernel
    · rw [if_neg (fun both => reset both.2), if_neg reset]
  unfold stakeTarget
  simp only [Option.map_some, Option.getD_some, spacing_eq, interval, actual, factor, divisor]
  rw [limited_toNat, divBy_toNat _ (by omega), mulBy_toNat, start]
  rfl

theorem required_eq :
    chain.required activeHeight =
      compactOf (cutTarget chain.previousTarget (chain.spacing activeHeight)
        chain.actualSpacing) := by
  have high := chain.pastFirst
  have notFirst : ¬ (chain.pindexLast.nHeight = 0 ∨ chain.pindexLast.nHeight < 24) := by omega
  have value : BitVec.ofNat 256 (cutTarget chain.previousTarget (chain.spacing activeHeight)
      chain.actualSpacing) =
      stakeTarget params activeHeight chain.pindexLast (some chain.pprev) := by
    rw [← chain.stakeTarget_toNat activeHeight, BitVec.ofNat_toNat, BitVec.setWidth_eq]
  unfold required blocks compactOf
  rw [value, getNextWorkRequired, if_neg notFirst, if_pos chain.stakePhase]
  rfl

theorem meetsFormula_iff : chain.MeetsFormula activeHeight ↔ chain.Fits activeHeight := by
  have bounds := chain.spacing_bounds activeHeight
  unfold MeetsFormula Fits
  rw [required_eq]
  constructor
  · exact retargetFits_of_compactOf (by omega) bounds.2
  · exact compactOf_cutTarget (by omega)

/-- The target that is required. -/
def newTarget : Nat := (setCompact (chain.required activeHeight)).toNat

theorem newTarget_of_meetsFormula (meets : chain.MeetsFormula activeHeight) :
    chain.newTarget activeHeight = keptTop (exactTarget chain.previousTarget
      (chain.spacing activeHeight) chain.actualSpacing) := by
  have fits : exactTarget chain.previousTarget (chain.spacing activeHeight) chain.actualSpacing <
      2 ^ 256 := limited_lt _
  rw [newTarget, meets, compactOf, setCompact_getCompact, BitVec.toNat_ofNat, Nat.mod_eq_of_lt fits]

theorem actualSpacing_lt : chain.actualSpacing < 2 ^ 32 := by
  have := chain.pindexLast.nTime.toNat_lt
  unfold actualSpacing CBlockIndex.getBlockTime
  split <;> omega

end StakeChain

/-- The target of a stake falls from the limit to 1: the quotient was zero. -/
def LeavesZero (t s a a' : Nat) : Prop := t = 1 ∧ a < s ∧ s ≤ a'

/-- The shorter spacing takes the target to zero and the longer one does not: the target is 1. -/
theorem leavesZero_iff {a' : Nat} :
    LeavesZero t s a a' ↔
      t * retargetFactor s a < 41 * s ∧ 0 < t ∧ 41 * s ≤ t * retargetFactor s a' ∧ t ≤ 1 := by
  unfold LeavesZero retargetFactor
  constructor
  · rintro ⟨rfl, short, long⟩
    omega
  · rintro ⟨short, nonzero, long, one⟩
    obtain rfl : t = 1 := by omega
    omega

theorem le_one_of_zero (zero : t * retargetFactor s a < 41 * s) : t ≤ 1 := by
  by_contra more
  have : 2 * (39 * s) ≤ t * retargetFactor s a :=
    Nat.mul_le_mul (by omega) (by unfold retargetFactor; omega)
  omega

theorem exactTarget_mono_iff (t : Nat) {a' : Nat} (low : 60 ≤ s) (slow : s ≤ 120) (longer : a ≤ a')
    (bounded : a' < 2 ^ 32) :
    keptTop (exactTarget t s a) ≤ keptTop (exactTarget t s a') ↔ ¬ LeavesZero t s a a' := by
  have zero : ∀ a, t * retargetFactor s a / (41 * s) = 0 ↔ t * retargetFactor s a < 41 * s :=
    fun a => Nat.div_eq_zero_iff_lt (by omega)
  have quotients : t * retargetFactor s a / (41 * s) ≤ t * retargetFactor s a' / (41 * s) :=
    Nat.div_le_div_right (Nat.mul_le_mul_left _ (by unfold retargetFactor; omega))
  rw [leavesZero_iff]
  unfold exactTarget
  by_cases first : t * retargetFactor s a / (41 * s) = 0
  · have one := le_one_of_zero ((zero a).mp first)
    -- the shorter spacing has the limit
    have fromLimit : keptTop (limited (t * retargetFactor s a / (41 * s))) = keptLimit :=
      keptTop_limit (keptLimit_le_limited (Or.inl first)) (limited_le _)
    rw [fromLimit]
    by_cases second : t * retargetFactor s a' / (41 * s) = 0
    · rw [keptTop_limit (keptLimit_le_limited (Or.inl second)) (limited_le _)]
      have := (zero a').mp second
      exact iff_of_true (le_refl _) (by omega)
    have small : t * retargetFactor s a' ≤ 1 * (39 * 120 + 2 * 2 ^ 32) :=
      Nat.mul_le_mul one (by unfold retargetFactor; omega)
    have low := Nat.div_le_self (t * retargetFactor s a') (41 * s)
    have uncapped : t * retargetFactor s a' / (41 * s) < keptLimit := by
      unfold keptLimit
      omega
    have nonzero : 0 < t := by
      rcases Nat.eq_zero_or_pos t with rfl | nonzero
      · rw [Nat.zero_mul, Nat.zero_div] at second
        exact absurd rfl second
      · exact nonzero
    have reaches : 41 * s ≤ t * retargetFactor s a' := by
      have := (zero a').not.mp second
      omega
    have below := keptTop_le (t * retargetFactor s a' / (41 * s))
    rw [limited_eq_of_uncapped second uncapped]
    exact iff_of_false (by omega) (fun stays => stays ⟨(zero a).mp first, nonzero, reaches, one⟩)
  · have second : t * retargetFactor s a' / (41 * s) ≠ 0 :=
      Nat.ne_of_gt (Nat.lt_of_lt_of_le (Nat.pos_of_ne_zero first) quotients)
    have grows : limited (t * retargetFactor s a / (41 * s)) ≤
        limited (t * retargetFactor s a' / (41 * s)) := by
      unfold limited
      rw [if_neg first, if_neg second]
      exact Nat.le_min.mpr ⟨Nat.min_le_left _ _, Nat.le_trans (Nat.min_le_right _ _) quotients⟩
    exact iff_of_true (keptTop_mono grows) (fun leaves => first ((zero a).mpr leaves.1))

/-- The required bits are those of the formula and the longer spacing has no smaller target, if and
only if both retargets cut nothing off that shows and the shorter one does not take 1 to zero. -/
theorem next_target_iff {params : CChainParams} (activeHeight : Int)
    (chain chain' : StakeChain params)
    (oneTarget : chain.previousTarget = chain'.previousTarget)
    (oneSpacing : chain.spacing activeHeight = chain'.spacing activeHeight)
    (longer : chain.actualSpacing ≤ chain'.actualSpacing) :
    (chain.MeetsFormula activeHeight ∧ chain'.MeetsFormula activeHeight ∧
        chain.newTarget activeHeight ≤ chain'.newTarget activeHeight) ↔
      (chain.Fits activeHeight ∧ chain'.Fits activeHeight ∧
        ¬ LeavesZero chain.previousTarget (chain.spacing activeHeight) chain.actualSpacing
          chain'.actualSpacing) := by
  have bounds := chain.spacing_bounds activeHeight
  have bounded := chain'.actualSpacing_lt
  have mono := exactTarget_mono_iff chain.previousTarget bounds.1 bounds.2 longer bounded
  rw [chain.meetsFormula_iff activeHeight, chain'.meetsFormula_iff activeHeight]
  constructor
  · rintro ⟨fits, fits', grows⟩
    rw [chain.newTarget_of_meetsFormula activeHeight
        ((chain.meetsFormula_iff activeHeight).mpr fits),
      chain'.newTarget_of_meetsFormula activeHeight
        ((chain'.meetsFormula_iff activeHeight).mpr fits'), ← oneTarget, ← oneSpacing] at grows
    exact ⟨fits, fits', mono.mp grows⟩
  rintro ⟨fits, fits', stays⟩
  refine ⟨fits, fits', ?_⟩
  rw [chain.newTarget_of_meetsFormula activeHeight
      ((chain.meetsFormula_iff activeHeight).mpr fits),
    chain'.newTarget_of_meetsFormula activeHeight
      ((chain'.meetsFormula_iff activeHeight).mpr fits'), ← oneTarget, ← oneSpacing]
  exact mono.mpr stays

/-! ## A chain that rests -/

def restingBlock (nHeight : Int) (nTime nBits : UInt32) : CBlockIndex :=
  { phashBlock := none, nHeight, nTime, nBits }

/-- Four blocks above the switch at the required bits, the last this much later than its minute. -/
def restingChain (rest : UInt32) : StakeChain mainParams where
  pindexLast := restingBlock 203 (1540000180 + rest) 0x1e00ffff
  pprev := restingBlock 202 1540000120 0x1e00ffff
  below := [restingBlock 201 1540000060 0x1e00ffff, restingBlock 200 1540000000 0x1e0fffff,
    restingBlock 199 1539999940 0x1e0fffff]
  stakePhase := by
    show (200 : Int) ≤ 203
    decide
  pastFirst := by
    show (24 : Int) ≤ 203
    decide

theorem resting_chain_meets :
    (restingChain 0).MeetsFormula 203 ∧ (restingChain 40).MeetsFormula 203 ∧
      (restingChain 0).newTarget 203 ≤ (restingChain 40).newTarget 203 :=
  (next_target_iff 203 (restingChain 0) (restingChain 40) (by decide +kernel) (by decide +kernel)
    (by decide +kernel)).mpr (by
      refine ⟨Or.inl (by decide +kernel), Or.inl (by decide +kernel), ?_⟩
      unfold LeavesZero
      decide +kernel)

/-- After 97 days without a block the target falls below the one after 96 days. -/
theorem rested_chain_misses :
    CarriesRequired mainParams 203 (restingChain 8388548).blocks ∧
      ¬ (restingChain 8388548).MeetsFormula 203 ∧
      (restingChain 8300000).actualSpacing ≤ (restingChain 8388548).actualSpacing ∧
      (restingChain 8388548).newTarget 203 < (restingChain 8300000).newTarget 203 := by
  refine ⟨⟨fun _ => by decide +kernel, fun _ => by decide +kernel, fun _ => by decide +kernel,
    fun phase => absurd phase (by decide), trivial⟩, ?_, by decide +kernel, by decide +kernel⟩
  unfold StakeChain.MeetsFormula
  decide +kernel

end Esbcoin
