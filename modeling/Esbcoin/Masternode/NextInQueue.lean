import Esbcoin.Masternode.OrderFree

/-!
# The next masternode to pay

What `CMasternodeMan::GetNextMasternodeInQueueForPayment` (`src/masternodeman.cpp:618-698`) returns:
the best scored of the longest unpaid tenth of the masternodes that are eligible. The age of the
announcement counts unless fewer pass than a third of the level, and the third is rounded down: at a
level with one or two masternodes it is none, and the retry never comes (`young_masternode_unpaid`).
-/

namespace Esbcoin

open Arrange

section Eligible

variable (env : RanksEnv) (mns : MasternodeList) (nBlockHeight : Int) (mnlevel : Nat)

/-- Enabled at the level with a version that is paid, old enough as an input and not scheduled:
all that is asked for but the age of the announcement. -/
def isPayable (mn : CMasternode) : Bool :=
  mn.isEnabled && mn.level env.chainHeight == mnlevel &&
    decide (mn.protocolVersion ≥ activeProtocol env.chainHeight) &&
    decide (getMasternodeInputAge env mn ≥ queueCount env mns mnlevel) &&
    !isScheduled env mn (queueCount env mns mnlevel) nBlockHeight

/-- The masternodes that may be paid. -/
def payable : List CMasternode :=
  mns.vMasternodes.filter (isPayable env mns nBlockHeight mnlevel)

/-- The payable masternodes whose announcement is old enough. -/
def settledIn : List CMasternode :=
  (payable env mns nBlockHeight mnlevel).filter
    fun mn => !isTooNew env (queueCount env mns mnlevel) mn

/-- The eligible masternodes, where the age counts unless too few have it. -/
def eligible (isFew : Bool) : List CMasternode :=
  if isFew then payable env mns nBlockHeight mnlevel else settledIn env mns nBlockHeight mnlevel

/-- What is paid out of the eligible ones: in an order of falling time since the last payment, the
best scored of the first tenth of the level, at least one; no one only if none has a score. -/
structure PaysNext (eligible : List CMasternode) (paid : Option CMasternode) : Prop where
  oldest : ∃ order, Arrangement (secondsSincePayment env mns.vMasternodes) eligible order ∧
    ∀ mn, paid = some mn →
      mn ∈ order.take (max 1 (queueCount env mns mnlevel / 10)) ∧
        ∀ other ∈ order.take (max 1 (queueCount env mns mnlevel / 10)),
          queueScore env nBlockHeight other ≤ queueScore env nBlockHeight mn
  unpaid : paid = none → ∀ mn ∈ eligible, queueScore env nBlockHeight mn = 0

/-- The hash tells one word from two. -/
def WordsHash.TellsLength (sha : WordsHash) : Prop := ∀ a b c, sha [a] ≠ sha [b, c]

end Eligible

/-! ## Scores -/

section Score

variable {env : RanksEnv}

theorem scoreOf_ne_zero {sha : WordsHash} (tells : sha.TellsLength) (vin : CTxIn)
    (hash : UInt256) : scoreOf sha vin hash ≠ 0 := by
  have differ := tells hash hash (vin.prevout.hash + BitVec.ofNat 256 vin.prevout.n.toNat)
  intro zero
  simp only [scoreOf] at zero
  generalize sha [hash] = hash2 at differ zero
  generalize sha [hash, _] = hash3 at differ zero
  split at zero
  · exact differ (by bv_omega)
  · exact differ (by bv_omega)

/-- One masternode without a score is one of a height without a block: none has one. -/
theorem queueScore_eq_zero (tells : env.sha.TellsLength) {nBlockHeight : Int} {mn : CMasternode}
    (zero : queueScore env nBlockHeight mn = 0) (other : CMasternode) :
    queueScore env nBlockHeight other = 0 := by
  unfold queueScore RanksEnv.score calculateScore at *
  cases tip : env.chain.tip with
  | none => rfl
  | some pindex =>
    rw [tip] at zero
    rcases answer : getBlockHash env.chain env.mapCacheBlockHashes (nBlockHeight - 100) with
      ⟨_ | hash, cache⟩
    · rfl
    · simp only [answer] at zero
      exact absurd (BitVec.eq_of_toNat_eq zero) (scoreOf_ne_zero tells mn.vin hash)

end Score

/-! ## The queue -/

section Queue

variable {env : RanksEnv} {mns : MasternodeList} {nBlockHeight : Int} {mnlevel : Nat}

theorem isQueued_eq (fFilterSigTime : Bool) (mn : CMasternode) :
    isQueued env nBlockHeight mnlevel fFilterSigTime (queueCount env mns mnlevel) mn =
      (isPayable env mns nBlockHeight mnlevel mn &&
        !(fFilterSigTime && isTooNew env (queueCount env mns mnlevel) mn)) := by
  unfold isQueued isPayable
  rw [← decide_not, ← decide_not]
  simp only [not_lt, ge_iff_le]
  ac_rfl

theorem queuedMasternodes_eq (fFilterSigTime : Bool) :
    queuedMasternodes env mns nBlockHeight mnlevel fFilterSigTime =
      eligible env mns nBlockHeight mnlevel !fFilterSigTime := by
  unfold queuedMasternodes
  rw [List.filter_congr fun mn _ => isQueued_eq fFilterSigTime mn]
  cases fFilterSigTime with
  | false =>
    refine List.filter_congr fun mn _ => ?_
    rw [Bool.false_and, Bool.not_false, Bool.and_true]
  | true =>
    rw [eligible, Bool.not_true, if_neg Bool.false_ne_true, settledIn, payable, List.filter_filter]
    refine List.filter_congr fun mn _ => ?_
    rw [Bool.true_and, Bool.and_comm]

/-- Too few are left where their number is below the third that the source takes. -/
def isFew (env : RanksEnv) (mns : MasternodeList) (nBlockHeight : Int) (mnlevel : Nat) : Bool :=
  decide ((settledIn env mns nBlockHeight mnlevel).length < queueCount env mns mnlevel / 3)

theorem keepsFilter_true :
    keepsFilter env mns nBlockHeight mnlevel true = !isFew env mns nBlockHeight mnlevel := by
  rw [keepsFilter, queuedMasternodes_eq, Bool.true_and]
  rfl

/-- A queue that is not empty has a first place. -/
theorem exists_mem_take {order : List CMasternode} {mn : CMasternode} (member : mn ∈ order)
    (n : Nat) : ∃ first, first ∈ order.take (max 1 n) := by
  cases order with
  | nil => cases member
  | cons first rest =>
    rw [show max 1 n = (max 1 n - 1) + 1 by omega, List.take_succ_cons]
    exact ⟨first, List.mem_cons_self⟩

/-- The best of the first tenth is what is paid. -/
theorem paysNext_best (tells : env.sha.TellsLength) {queue order : List CMasternode}
    (arranged : Arrangement (secondsSincePayment env mns.vMasternodes) queue order) :
    PaysNext env mns nBlockHeight mnlevel queue
      (best (queueScore env nBlockHeight) (order.take (tenth env mns mnlevel))) where
  oldest := by
    refine ⟨order, arranged, fun mn paid => ?_⟩
    obtain ⟨-, i, here, ahead⟩ := best_eq_some_iff.mp paid
    refine ⟨List.mem_of_getElem? here, fun other member => ?_⟩
    obtain ⟨j, there⟩ := List.getElem?_of_mem member
    have := ahead j other there
    omega
  unpaid := by
    intro none mn member
    obtain ⟨first, early⟩ := exists_mem_take (arranged.perm.symm.subset member)
      (queueCount env mns mnlevel / 10)
    exact queueScore_eq_zero tells (best_eq_none_iff.mp none first early) mn

end Queue

/-- The masternode that is paid next is the best scored of the longest unpaid tenth of the eligible
ones; their age counts unless fewer than a third, rounded down, have it. -/
theorem next_in_queue (env : RanksEnv) (mns : MasternodeList) (nBlockHeight : Int) (mnlevel : Nat)
    (tells : env.sha.TellsLength) :
    PaysNext env mns nBlockHeight mnlevel
      (eligible env mns nBlockHeight mnlevel
        (decide ((settledIn env mns nBlockHeight mnlevel).length < queueCount env mns mnlevel / 3)))
      (getNextMasternodeInQueueForPayment env mns nBlockHeight mnlevel true).1 := by
  rw [getNextMasternodeInQueueForPayment_eq, keepsFilter_true, queuedMasternodes_eq, Bool.not_not]
  exact paysNext_best tells (env.sorter.arrangement _ _)

def parityEnv : RanksEnv :=
  { sampleRanksEnv with sha := fun words => 2 * words.sum + BitVec.ofNat 256 (words.length - 1) }

theorem parityEnv_tells : parityEnv.sha.TellsLength := by
  intro a b c same
  have bit := congrArg (fun word : UInt256 => word.toNat % 2) same
  simp only [parityEnv, BitVec.toNat_add, BitVec.toNat_mul, BitVec.toNat_ofNat,
    BitVec.ofNat_eq_ofNat, List.length_cons, List.length_nil] at bit
  omega

/-- A masternode of the level, announced at a time, with a payee of its own. -/
def queuedMasternode (sigTime : Int) (i : Nat) : CMasternode :=
  { sampleMasternode (BitVec.ofNat 256 i) with payee := [UInt8.ofNat i], sigTime := sigTime }

/-- Twenty masternodes, of which the first is announced too late. -/
def queuedList : MasternodeList where
  vMasternodes := queuedMasternode 3000000 1 ::
    (List.range 19).map fun i => queuedMasternode 0 (i + 2)
  distinct := by decide +kernel

/-- A month later: none was paid, a masternode is ahead of those with a higher collateral hash,
and the second is scheduled at height 5. -/
def queuedEnv : RanksEnv :=
  { parityEnv with
    paidSha := fun vin _ => 2 ^ 200 - 2 ^ 184 * vin.prevout.hash
    adjustedTime := 3000000
    payments :=
      { Payments.CMasternodePayments.init with
        mapMasternodeBlocks :=
          (∅ : AssocMap Int Payments.CMasternodeBlockPayees).insert 5 ⟨5, [⟨[2], 1, 6⟩], by decide⟩ } }

/-- The tenth of twenty is two, and the two masternodes longest unpaid that are eligible are the
third and the fourth: the better scored of them is paid. -/
theorem next_in_queue_twenty :
    queuedEnv.sha.TellsLength ∧
      PaysNext queuedEnv queuedList 101 1
        (eligible queuedEnv queuedList 101 1
          (decide ((settledIn queuedEnv queuedList 101 1).length <
            queueCount queuedEnv queuedList 1 / 3)))
        (getNextMasternodeInQueueForPayment queuedEnv queuedList 101 1 true).1 ∧
      getNextMasternodeInQueueForPayment queuedEnv queuedList 101 1 true =
        (some (queuedMasternode 0 4), 18) :=
  ⟨parityEnv_tells, next_in_queue queuedEnv queuedList 101 1 parityEnv_tells, by decide +kernel⟩

def youngList : MasternodeList where
  vMasternodes := [sampleMasternode 5]
  distinct := List.nodup_singleton _

/-- The only masternode of a level is too young: fewer than a third of the level are old enough,
and it is not paid. -/
theorem young_masternode_unpaid :
    ¬ ∀ (env : RanksEnv) (mns : MasternodeList) (nBlockHeight : Int) (mnlevel : Nat),
      env.sha.TellsLength →
      PaysNext env mns nBlockHeight mnlevel
        (eligible env mns nBlockHeight mnlevel
          (decide (3 * (settledIn env mns nBlockHeight mnlevel).length <
            queueCount env mns mnlevel)))
        (getNextMasternodeInQueueForPayment env mns nBlockHeight mnlevel true).1 := by
  intro claim
  have score := (claim parityEnv youngList 1 1 parityEnv_tells).unpaid (by decide +kernel)
    (sampleMasternode 5) (by decide +kernel)
  exact absurd score (by decide +kernel)

end Esbcoin
