import Esbcoin.Masternode.DevFee

/-!
# The coinstake that pays every level

The verdict of `CMasternodeBlockPayees::IsTransactionValid` (`src/masternode-payments.cpp:435-544`)
on any coinstake; `devFeePart` is what it asks about the dev fee.
-/

namespace Esbcoin

open Payments

/-- The dev-fee part of `IsTransactionValid` (`masternode-payments.cpp:460-498`): whether the
coinstake passes, and the reward left for the masternodes. -/
def devFeePart (env : RewardEnv) (block : CMasternodeBlockPayees) (txNew : CTransaction) :
    Option (Bool × Int) :=
  (env.blockValue (block.nBlockHeight - 1)).bind fun nReward =>
    if env.pastUpdate then
      (env.devFeeValue (block.nBlockHeight - 1)).bind fun devFeeFund =>
        (refusesDevFee env txNew.vout devFeeFund).map fun refused => (!refused, nReward)
    else if env.devFee > 0 then
      let devFeeFund := env.sporkDevFee nReward
      some (findsDevFee env txNew.vout devFeeFund, nReward - devFeeFund)
    else some (true, nReward)

section Verdict

variable {env : RewardEnv} {block : CMasternodeBlockPayees} {txNew : CTransaction}

/-- Without a qualified payee every coinstake passes. -/
theorem isTransactionValid_of_few (few : ∀ payee ∈ block.vecPayments, ¬ payee.Qualified) :
    block.isTransactionValid env txNew = some true := by
  exact if_pos ((selectSignatures_size block.vecPayments).mpr few)

/-- With one, the loop over the payees follows the dev-fee part. -/
theorem isTransactionValid_of_qualified (qualified : ∃ payee ∈ block.vecPayments, payee.Qualified) :
    block.isTransactionValid env txNew =
      (devFeePart env block txNew).map fun (passes, nReward) =>
        passes && payeesPaid txNew.vout (env.masternodePayment · nReward)
          (selectSignatures block.vecPayments) block.vecPayments := by
  have selected : (selectSignatures block.vecPayments).size ≠ 0 := by
    rw [Ne, selectSignatures_size]
    push Not
    exact qualified
  unfold CMasternodeBlockPayees.isTransactionValid devFeePart
  rw [if_neg selected]
  cases env.blockValue (block.nBlockHeight - 1) with
  | none => rfl
  | some nReward =>
    rw [Option.bind_some, Option.bind_some]
    by_cases past : env.pastUpdate = true
    · rw [if_pos past, if_pos past]
      cases env.devFeeValue (block.nBlockHeight - 1) with
      | none => rfl
      | some devFeeFund =>
        rw [Option.bind_some, Option.bind_some, Option.map_map]
        rfl
    rw [if_neg past, if_neg past]
    by_cases due : env.devFee > 0
    · rw [if_pos due, if_pos due]
      rfl
    · rw [if_neg due, if_neg due]
      exact congrArg some (Bool.true_and _).symm

end Verdict

/-- A coinstake passes if and only if no payee has the votes, or the dev fee is in order and every
level that has a payee with the votes pays one of them. -/
theorem coinstake_passes_iff (env : RewardEnv) (block : CMasternodeBlockPayees)
    (txNew : CTransaction) :
    (block.isTransactionValid env txNew = some true ↔
      (∀ payee ∈ block.vecPayments, ¬ payee.Qualified) ∨
        ∃ nReward, devFeePart env block txNew = some (true, nReward) ∧
          LevelsPaid txNew.vout (env.masternodePayment · nReward) block.vecPayments) ∧
      (devFeePart env block txNew ≠ none → block.isTransactionValid env txNew ≠ none) := by
  by_cases qualified : ∃ payee ∈ block.vecPayments, payee.Qualified
  · have some : ¬ ∀ payee ∈ block.vecPayments, ¬ payee.Qualified := by
      push Not
      exact qualified
    rw [isTransactionValid_of_qualified qualified]
    constructor
    · simp only [some, false_or, ← payeesPaid_iff qualified, Option.map_eq_some_iff, Prod.exists,
        Bool.and_eq_true]
      constructor
      · rintro ⟨passes, nReward, part, rfl, paid⟩
        exact ⟨nReward, part, paid⟩
      · rintro ⟨nReward, part, paid⟩
        exact ⟨true, nReward, part, rfl, paid⟩
    · rw [Ne, Ne, Option.map_eq_none_iff]
      exact id
  · have few : ∀ payee ∈ block.vecPayments, ¬ payee.Qualified := by
      push Not at qualified
      exact qualified
    rw [isTransactionValid_of_few few]
    exact ⟨⟨fun _ => Or.inl few, fun _ => rfl⟩, fun _ => nofun⟩

/-- A level that pays its second qualified payee, and another that pays none. -/
example :
    let vecPayments : List CMasternodePayee := [⟨[0x51], 1, 6⟩, ⟨[0x52], 2, 7⟩, ⟨[0x53], 1, 9⟩]
    payeesPaid [⟨5, [0x53]⟩, ⟨3, [0x52]⟩] (fun _ => 4) (selectSignatures vecPayments)
        vecPayments = false ∧
      payeesPaid [⟨5, [0x53]⟩, ⟨3, [0x52]⟩] (fun mnlevel => 4 / mnlevel)
        (selectSignatures vecPayments) vecPayments = true := by
  decide

end Esbcoin
