import Esbcoin.Chain.Params
import Esbcoin.Lib.Binary64
import Esbcoin.Masternode

/-!
# Shares of masternodes

`GetMasternodePayment` (`src/main.cpp:1746-1775`), which multiplies in doubles.
-/

namespace Esbcoin

open Binary64

/-- The literals of `GetMasternodePayment` (`main.cpp:1751-1772`). -/
def masternodeShare (nProtocol : Int) (mnlevel : Nat) : ℚ :=
  if nProtocol ≥ CONSENSUS_FORK_REWARD_UPDATE_PROTOCOL then
    match mnlevel with
    | 1 => 9 / 100
    | 2 => 18 / 100
    | 3 => 27 / 100
    | 4 => 36 / 100
    | _ => 0
  else if nProtocol ≥ CONSENSUS_FORK_PROTO then
    match mnlevel with
    | 1 => 15 / 100
    | 2 => 20 / 100
    | 3 => 25 / 100
    | 4 => 30 / 100
    | _ => 0
  else
    match mnlevel with
    | 1 => 2 / 10
    | 2 => 3 / 10
    | 3 => 3 / 10
    | 4 => 2 / 100
    | _ => 0

/-- `GetMasternodePayment` (`main.cpp:1746-1775`). -/
def getMasternodePayment (nProtocol : Int) (mnlevel : Nat) (blockValue : Int) : Int :=
  trunc (mul (nearest blockValue) (nearest (masternodeShare nProtocol mnlevel)))

example : getMasternodePayment 70225 4 (25 * COIN) = 9 * COIN := by decide +kernel

section Shares

variable {nProtocol : Int} {mnlevel : Nat} {blockValue : Int}

theorem masternodeShare_nonneg (nProtocol : Int) (mnlevel : Nat) :
    0 ≤ masternodeShare nProtocol mnlevel := by
  unfold masternodeShare
  split_ifs
  all_goals split <;> norm_num

theorem masternodeShare_outside (outside : mnlevel ∉ CMasternode.levels) :
    masternodeShare nProtocol mnlevel = 0 := by
  unfold masternodeShare
  split_ifs
  all_goals
    split
    all_goals first | rfl | exact absurd (by decide) outside

theorem getMasternodePayment_outside (outside : mnlevel ∉ CMasternode.levels) :
    getMasternodePayment nProtocol mnlevel blockValue = 0 := by
  unfold getMasternodePayment mul
  rw [masternodeShare_outside outside, nearest_zero, mul_zero]
  rfl

theorem product_nonneg (nonneg : 0 ≤ blockValue) :
    0 ≤ nearest blockValue * nearest (masternodeShare nProtocol mnlevel) := by
  have value : 0 ≤ nearest blockValue := nearest_nonneg (by exact_mod_cast nonneg)
  exact mul_nonneg value (nearest_nonneg (masternodeShare_nonneg nProtocol mnlevel))

theorem getMasternodePayment_nonneg (nonneg : 0 ≤ blockValue) :
    0 ≤ getMasternodePayment nProtocol mnlevel blockValue :=
  trunc_nonneg (nearest_nonneg (product_nonneg nonneg))

theorem getMasternodePayment_mono {less more : Int} (nonneg : 0 ≤ less) (le : less ≤ more) :
    getMasternodePayment nProtocol mnlevel less ≤ getMasternodePayment nProtocol mnlevel more := by
  have share := nearest_nonneg (masternodeShare_nonneg nProtocol mnlevel)
  have value : nearest (less : ℚ) ≤ nearest more :=
    nearest_mono (by exact_mod_cast nonneg) (by exact_mod_cast le)
  refine trunc_mono (nearest_nonneg (product_nonneg nonneg)) ?_
  exact nearest_mono (product_nonneg nonneg) (mul_le_mul_of_nonneg_right value share)

/-- The relative errors of the two roundings. -/
def shareError : ℚ := (1 + 1 / 2 ^ 53) * (1 + 1 / 2 ^ 53)

theorem getMasternodePayment_le (nonneg : 0 ≤ blockValue) :
    (getMasternodePayment nProtocol mnlevel blockValue : ℚ) ≤
      blockValue * (shareError * nearest (masternodeShare nProtocol mnlevel)) := by
  have share := nearest_nonneg (masternodeShare_nonneg nProtocol mnlevel)
  have value : nearest (blockValue : ℚ) ≤ blockValue * (1 + 1 / 2 ^ 53) :=
    nearest_le (by exact_mod_cast nonneg)
  have product : nearest (nearest blockValue * nearest (masternodeShare nProtocol mnlevel)) ≤
      nearest blockValue * nearest (masternodeShare nProtocol mnlevel) * (1 + 1 / 2 ^ 53) :=
    nearest_le (product_nonneg nonneg)
  have error : (0 : ℚ) ≤ 1 + 1 / 2 ^ 53 := by norm_num
  calc (getMasternodePayment nProtocol mnlevel blockValue : ℚ)
      ≤ nearest (nearest blockValue * nearest (masternodeShare nProtocol mnlevel)) :=
        trunc_le (nearest_nonneg (product_nonneg nonneg))
    _ ≤ nearest blockValue * nearest (masternodeShare nProtocol mnlevel) * (1 + 1 / 2 ^ 53) := product
    _ ≤ blockValue * (1 + 1 / 2 ^ 53) * nearest (masternodeShare nProtocol mnlevel) *
          (1 + 1 / 2 ^ 53) :=
        mul_le_mul_of_nonneg_right (mul_le_mul_of_nonneg_right value share) error
    _ = blockValue * (shareError * nearest (masternodeShare nProtocol mnlevel)) := by
        unfold shareError
        ring

theorem shares_le_one (nProtocol : Int) :
    (CMasternode.levels.map (fun mnlevel =>
      shareError * nearest (masternodeShare nProtocol mnlevel))).sum ≤ 1 := by
  unfold masternodeShare
  split_ifs
  · decide +kernel
  · decide +kernel
  · decide +kernel

theorem payments_le (nonneg : 0 ≤ blockValue) :
    (CMasternode.levels.map (fun mnlevel =>
      getMasternodePayment nProtocol mnlevel blockValue)).sum ≤ blockValue := by
  have whole : (blockValue : ℚ) * (CMasternode.levels.map (fun mnlevel =>
      shareError * nearest (masternodeShare nProtocol mnlevel))).sum ≤ blockValue * 1 :=
    mul_le_mul_of_nonneg_left (shares_le_one nProtocol) (by exact_mod_cast nonneg)
  have each : ∀ mnlevel, (getMasternodePayment nProtocol mnlevel blockValue : ℚ) ≤
      blockValue * (shareError * nearest (masternodeShare nProtocol mnlevel)) :=
    fun _ => getMasternodePayment_le nonneg
  have levels : CMasternode.levels = [1, 2, 3, 4] := rfl
  rw [levels] at whole ⊢
  simp only [List.map_cons, List.map_nil, List.sum_cons, List.sum_nil] at whole ⊢
  have sum : ((getMasternodePayment nProtocol 1 blockValue +
      (getMasternodePayment nProtocol 2 blockValue + (getMasternodePayment nProtocol 3 blockValue +
        (getMasternodePayment nProtocol 4 blockValue + 0))) : Int) : ℚ) ≤ blockValue := by
    push_cast
    linarith [each 1, each 2, each 3, each 4]
  exact_mod_cast sum

end Shares

end Esbcoin
