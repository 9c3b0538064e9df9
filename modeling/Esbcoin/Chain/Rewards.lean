import Mathlib.Data.List.Range
import Mathlib.Tactic.SplitIfs
import Esbcoin.Chain.ActiveChain
import Esbcoin.Chain.Params

/-!
# Block rewards

`GetBlockValue` and `GetDevFeeValue` (`src/main.cpp:1667-1744`), which take a height and read the
tip of the active chain besides, and the limit `ConnectBlock` derives from them
(`src/main.cpp:2291-2293`).
-/

namespace Esbcoin

/-- The subsidy table of `GetBlockValue` (`main.cpp:1680-1729`). -/
def blockSubsidy (params : CChainParams) (nHeight : Int) : Int :=
  if params.networkID = .testnet then
    if nHeight = 0 then 10000000 * COIN
    else if nHeight < 200 then 200 * COIN
    else if nHeight < 2000 then 50 * COIN
    else if nHeight < 4000 then 40 * COIN
    else if nHeight < 6000 then 30 * COIN
    else if nHeight < 8000 then 20 * COIN
    else 10 * COIN
  else
    if nHeight = 0 then 1000000 * COIN
    else if nHeight < 200 then 0
    else if nHeight < 5050 then 5 * COIN
    else if nHeight < 26551 then 30 * COIN
    else if nHeight < 48052 then 40 * COIN
    else if nHeight < 69553 then 50 * COIN
    else if nHeight < 96804 then 60 * COIN
    else if nHeight < 187805 then 55 * COIN
    else if nHeight < 392807 then 50 * COIN
    else if nHeight < 522808 then 25 * COIN
    else if nHeight < 652809 then 1250000000
    else if nHeight < CONSENSUS_FORK_REWARD_UPDATE_BLOCK then 625000000
    else if nHeight < CONSENSUS_FORK_REWARD_UPDATE_BLOCK + 1000 then 0
    else 25 * COIN

/-- The subsidy as far as the maximum supply leaves room for it (`main.cpp:1735-1740`). -/
def cappedSubsidy (params : CChainParams) (nSubsidy nMoneySupply : Int) : Int :=
  let capped :=
    if nMoneySupply + nSubsidy ≥ params.maxMoneyOut then params.maxMoneyOut - nMoneySupply
    else nSubsidy
  if nMoneySupply ≥ params.maxMoneyOut then 0 else capped

/-- `GetBlockValue` (`main.cpp:1679-1744`); `none` without a tip to read the supply of. -/
def getBlockValue (params : CChainParams) (mapBlockIndex : BlockMap) (chainActive : CChain)
    (nHeight : Int) : Option Int :=
  if chainActive.height > CONSENSUS_FORK_REWARD_UPDATE_BLOCK then
    some (blockSubsidy params nHeight)
  else
    (mapBlockIndex.deref chainActive.tip).map (fun tip =>
      cappedSubsidy params (blockSubsidy params nHeight) tip.nMoneySupply)

/-- The blocks of a dev-fee cycle. -/
def nDevFeeCycle : Int := 5040

/-- The share of `GetDevFeeValue` in a block value (`main.cpp:1674`). -/
def devFeeOf (blockValue : Int) : Int := (blockValue * 10).tdiv 100 * nDevFeeCycle

/-- `GetDevFeeValue` (`main.cpp:1667-1677`). -/
def getDevFeeValue (params : CChainParams) (mapBlockIndex : BlockMap) (chainActive : CChain)
    (nHeight : Int) : Option Int :=
  if nHeight.tmod nDevFeeCycle = 0 ∧ chainActive.height > CONSENSUS_FORK_REWARD_UPDATE_BLOCK then
    (getBlockValue params mapBlockIndex chainActive nHeight).map devFeeOf
  else some 0

/-- The reward `ConnectBlock` allows on top of a parent at height `nHeight`, before fees
(`main.cpp:2291`). -/
def mintLimit (params : CChainParams) (mapBlockIndex : BlockMap) (chainActive : CChain)
    (nHeight : Int) : Option Int := do
  let value ← getBlockValue params mapBlockIndex chainActive nHeight
  let devFee ← getDevFeeValue params mapBlockIndex chainActive nHeight
  return value + devFee

/-- `IsBlockValueValid` (`masternode-payments.cpp:28-51`). -/
def isBlockValueValid (chainActive : CChain) (nExpectedValue nMinted : Int) : Bool :=
  match chainActive.tip with
  | none => true
  | some _ => !decide (nMinted > nExpectedValue)

/-! ## What the tip changes -/

private theorem zero_or_coin_ite {p : Prop} [Decidable p] {first second : Int}
    (hfirst : first = 0 ∨ COIN ≤ first) (hsecond : second = 0 ∨ COIN ≤ second) :
    (if p then first else second) = 0 ∨ COIN ≤ (if p then first else second) := by
  by_cases h : p
  · simpa [h] using hfirst
  · simpa [h] using hsecond

/-- Every subsidy of the table is nothing or at least one coin. -/
theorem blockSubsidy_eq_zero_or (params : CChainParams) (nHeight : Int) :
    blockSubsidy params nHeight = 0 ∨ COIN ≤ blockSubsidy params nHeight := by
  repeat' apply zero_or_coin_ite
  all_goals decide

theorem blockSubsidy_nonneg (params : CChainParams) (nHeight : Int) :
    0 ≤ blockSubsidy params nHeight := by
  have hcoin : COIN = 100000000 := rfl
  rcases blockSubsidy_eq_zero_or params nHeight with zero | large <;> omega

theorem devFeeOf_pos {blockValue : Int} (h : COIN ≤ blockValue) : 0 < devFeeOf blockValue := by
  unfold COIN at h
  have share : 0 < (blockValue * 10).tdiv 100 := by
    rw [Int.tdiv_eq_ediv_of_nonneg (by omega)]
    omega
  unfold devFeeOf nDevFeeCycle
  omega

theorem cappedSubsidy_eq_self_iff {params : CChainParams} {nSubsidy nMoneySupply : Int}
    (nonneg : 0 ≤ nSubsidy) :
    cappedSubsidy params nSubsidy nMoneySupply = nSubsidy ↔
      nSubsidy = 0 ∨ nMoneySupply + nSubsidy ≤ params.maxMoneyOut := by
  simp only [cappedSubsidy]
  split_ifs <;> omega

theorem cappedSubsidy_le {params : CChainParams} {nSubsidy : Int} (nonneg : 0 ≤ nSubsidy)
    (nMoneySupply : Int) : cappedSubsidy params nSubsidy nMoneySupply ≤ nSubsidy := by
  simp only [cappedSubsidy]
  split_ifs <;> omega

theorem cappedSubsidy_eq_iff {params : CChainParams} {nSubsidy : Int} (nonneg : 0 ≤ nSubsidy)
    (first second : Int) :
    cappedSubsidy params nSubsidy first = cappedSubsidy params nSubsidy second ↔
      nSubsidy = 0 ∨ first = second ∨
      (first + nSubsidy ≤ params.maxMoneyOut ∧ second + nSubsidy ≤ params.maxMoneyOut) ∨
      (params.maxMoneyOut ≤ first ∧ params.maxMoneyOut ≤ second) := by
  simp only [cappedSubsidy]
  split_ifs <;> omega

/-- The limit past the reward update: no cap, and the dev fee in a dev-fee cycle. -/
def limitPastUpdate (params : CChainParams) (nHeight : Int) : Int :=
  blockSubsidy params nHeight +
    if nHeight.tmod nDevFeeCycle = 0 then devFeeOf (blockSubsidy params nHeight) else 0

theorem mintLimit_of_past {params : CChainParams} {mapBlockIndex : BlockMap} {chain : CChain}
    (past : chain.height > CONSENSUS_FORK_REWARD_UPDATE_BLOCK) (nHeight : Int) :
    mintLimit params mapBlockIndex chain nHeight = some (limitPastUpdate params nHeight) := by
  have value : getBlockValue params mapBlockIndex chain nHeight
      = some (blockSubsidy params nHeight) := by
    simp [getBlockValue, past]
  simp only [mintLimit, getDevFeeValue, value, limitPastUpdate]
  by_cases cycle : nHeight.tmod nDevFeeCycle = 0
  · simp [cycle, past]
  · simp [cycle]

theorem mintLimit_of_not_past {params : CChainParams} {mapBlockIndex : BlockMap}
    {chain : CChain} {tip : CBlockIndex}
    (before : ¬ chain.height > CONSENSUS_FORK_REWARD_UPDATE_BLOCK)
    (htip : mapBlockIndex.deref chain.tip = some tip) (nHeight : Int) :
    mintLimit params mapBlockIndex chain nHeight =
      some (cappedSubsidy params (blockSubsidy params nHeight) tip.nMoneySupply) := by
  simp [mintLimit, getBlockValue, getDevFeeValue, before, htip]

/-- A subsidy is paid in full, without a dev fee. -/
theorem limitPastUpdate_eq_capped_iff (params : CChainParams) (nHeight nMoneySupply : Int) :
    limitPastUpdate params nHeight =
        cappedSubsidy params (blockSubsidy params nHeight) nMoneySupply ↔
      blockSubsidy params nHeight = 0 ∨
        nHeight.tmod nDevFeeCycle ≠ 0 ∧
          nMoneySupply + blockSubsidy params nHeight ≤ params.maxMoneyOut := by
  have nonneg := blockSubsidy_nonneg params nHeight
  have atMost := @cappedSubsidy_le params _ nonneg nMoneySupply
  have full := @cappedSubsidy_eq_self_iff params _ nMoneySupply nonneg
  have hcoin : COIN = 100000000 := rfl
  unfold limitPastUpdate
  by_cases cycle : nHeight.tmod nDevFeeCycle = 0
  · rw [if_pos cycle]
    rcases blockSubsidy_eq_zero_or params nHeight with zero | large
    · rw [full.mpr (.inl zero), zero]
      simp [devFeeOf]
    have fee := devFeeOf_pos large
    constructor
    · intro equal; omega
    · rintro (zero | ⟨noCycle, -⟩)
      · omega
      · exact absurd cycle noCycle
  · rw [if_neg cycle]
    constructor
    · intro equal
      rcases full.mp (by omega) with zero | room
      · exact .inl zero
      · exact .inr ⟨cycle, room⟩
    · intro h
      omega

/-- When an active chain of height `chainHeight` and tip supply `tipSupply` gives a parent
the limit it has as the tip itself. -/
def SameLimit (params : CChainParams) (chainHeight tipSupply : Int) (parent : CBlockIndex) :
    Prop :=
  let fork := CONSENSUS_FORK_REWARD_UPDATE_BLOCK
  let nSubsidy := blockSubsidy params parent.nHeight
  let outsideCycle := parent.nHeight.tmod nDevFeeCycle ≠ 0
  (chainHeight > fork ∧ parent.nHeight > fork) ∨ nSubsidy = 0 ∨
  (chainHeight ≤ fork ∧ parent.nHeight ≤ fork ∧
    (tipSupply = parent.nMoneySupply ∨
      (tipSupply + nSubsidy ≤ params.maxMoneyOut ∧
        parent.nMoneySupply + nSubsidy ≤ params.maxMoneyOut) ∨
      (params.maxMoneyOut ≤ tipSupply ∧ params.maxMoneyOut ≤ parent.nMoneySupply))) ∨
  (chainHeight > fork ∧ parent.nHeight ≤ fork ∧ outsideCycle ∧
    parent.nMoneySupply + nSubsidy ≤ params.maxMoneyOut) ∨
  (chainHeight ≤ fork ∧ parent.nHeight > fork ∧ outsideCycle ∧
    tipSupply + nSubsidy ≤ params.maxMoneyOut)

/-- The limit on top of `parent` under the active chain `chain` is the one under a chain
that ends in `parent` exactly when `SameLimit` holds. -/
theorem mintLimit_eq_iff (params : CChainParams) (mapBlockIndex : BlockMap)
    {chain extended : CChain} {tip parent : CBlockIndex}
    (htip : mapBlockIndex.deref chain.tip = some tip)
    (hparent : mapBlockIndex.deref extended.tip = some parent)
    (hheight : extended.height = parent.nHeight) :
    mintLimit params mapBlockIndex chain parent.nHeight =
        mintLimit params mapBlockIndex extended parent.nHeight ↔
      SameLimit params chain.height tip.nMoneySupply parent := by
  have nonneg := blockSubsidy_nonneg params parent.nHeight
  simp only [SameLimit]
  by_cases chainPast : chain.height > CONSENSUS_FORK_REWARD_UPDATE_BLOCK
  · by_cases parentPast : extended.height > CONSENSUS_FORK_REWARD_UPDATE_BLOCK
    · rw [mintLimit_of_past chainPast, mintLimit_of_past parentPast]
      have both : parent.nHeight > CONSENSUS_FORK_REWARD_UPDATE_BLOCK := hheight ▸ parentPast
      simp [chainPast, both]
    · rw [mintLimit_of_past chainPast, mintLimit_of_not_past parentPast hparent,
        Option.some_inj, limitPastUpdate_eq_capped_iff]
      omega
  by_cases parentPast : extended.height > CONSENSUS_FORK_REWARD_UPDATE_BLOCK
  · rw [mintLimit_of_not_past chainPast htip, mintLimit_of_past parentPast,
      Option.some_inj, eq_comm, limitPastUpdate_eq_capped_iff]
    omega
  · rw [mintLimit_of_not_past chainPast htip, mintLimit_of_not_past parentPast hparent,
      Option.some_inj, cappedSubsidy_eq_iff nonneg]
    omega

/-! ## A chain past the reward update -/

/-- The block at height `nHeight` of a chain whose blocks hash to their position. -/
def straightIndex (nHeight : Nat) : CBlockIndex where
  phashBlock := some (BitVec.ofNat 256 (nHeight + 1))
  pprev := if nHeight = 0 then none else some (BitVec.ofNat 256 nHeight)
  nHeight := nHeight
  nMoneySupply := 20000000 * COIN

/-- The active chain of the first `n` of these blocks. -/
def straightChain (n : Nat) : CChain := ⟨(List.range n).map (fun h => BitVec.ofNat 256 (h + 1))⟩

/-- A node that has the first `n` of these blocks in its index. -/
def straightMap (n : Nat) (small : n < 2 ^ 256) : BlockMap := heightsMap straightIndex n small

theorem eighteen_small : 18 < 2 ^ 256 := by decide

def straightLinked (n : Nat) (small : n < 2 ^ 256) : LinkedChain where
  mapBlockIndex := straightMap n small
  chainActive := straightChain n
  wellFormed := heightsMap_wellFormed (fun _ => rfl) small
  linked := heightsMap_linked (fun _ => rfl) small

theorem straightMap_deref {n : Nat} (small : n < 2 ^ 256) {h : Nat} (lt : h < n) :
    (straightMap n small).deref (straightChain (h + 1)).tip = some (straightIndex h) := by
  have tip : (straightChain (h + 1)).tip = some (BitVec.ofNat 256 (h + 1)) := by
    simp [straightChain, CChain.tip, List.range_succ]
  rw [tip]
  exact (heightsMap_lookup_iff small).mpr ⟨h, lt, rfl, rfl⟩

theorem straightChain_height (n : Nat) : (straightChain n).height = (n : Int) - 1 := by
  simp [straightChain, CChain.height]

/-- With the same chain up to height 685001, the block after height 680401 may mint the
same under the whole chain as under the chain up to its parent. -/
theorem mintLimit_straight_680401 :
    mintLimit mainParams (straightMap 685002 (by decide)) (straightChain 685002) 680401 =
      mintLimit mainParams (straightMap 685002 (by decide)) (straightChain 680402) 680401 :=
  (mintLimit_eq_iff mainParams (straightMap 685002 (by decide))
    (straightMap_deref (by decide) (by decide : 685001 < 685002))
    (straightMap_deref (by decide) (by decide : 680401 < 685002))
    (straightChain_height _)).mpr (by
      rw [straightChain_height]
      unfold SameLimit
      decide)

/-- `VerifyDB` reconnecting the block after height 680400 under the whole chain allows it a
dev fee that it was not allowed when that chain was built. -/
theorem mintLimit_depends_on_tip :
    ¬ ∀ params mapBlockIndex chain extended tip parent,
      BlockMap.deref mapBlockIndex chain.tip = some tip →
      BlockMap.deref mapBlockIndex extended.tip = some parent →
      extended.height = parent.nHeight →
      mintLimit params mapBlockIndex chain parent.nHeight =
        mintLimit params mapBlockIndex extended parent.nHeight := by
  intro claim
  have small : 685002 < 2 ^ 256 := by decide
  have same := claim mainParams (straightMap 685002 small) (straightChain 685002)
    (straightChain 680401) _ _
    (straightMap_deref small (by decide : 685001 < 685002))
    (straightMap_deref small (by decide : 680400 < 685002))
    (straightChain_height _)
  have past : (straightChain 685002).height > CONSENSUS_FORK_REWARD_UPDATE_BLOCK := by
    rw [straightChain_height]; decide
  have before : ¬ (straightChain 680401).height > CONSENSUS_FORK_REWARD_UPDATE_BLOCK := by
    rw [straightChain_height]; decide
  rw [mintLimit_of_past past, mintLimit_of_not_past before
    (straightMap_deref small (by decide : 680400 < 685002))] at same
  revert same
  decide

end Esbcoin
