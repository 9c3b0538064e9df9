import Esbcoin.Masternode.Ranks
import Mathlib.Data.BitVec

/-!
# Ranks and the order of the masternode list

The list of masternodes is in the order in which their announcements came. `orderFree_iff` says when
ranks and the queue do not depend on it.
-/

namespace Esbcoin

open Arrange List

/-- Two lists with the same masternodes. -/
def MasternodeList.Reordered (mns' mns : MasternodeList) : Prop :=
  mns'.vMasternodes.Perm mns.vMasternodes

namespace MasternodeList

variable {mns mns' : MasternodeList}

theorem nodup (mns : MasternodeList) : mns.vMasternodes.Nodup := mns.distinct.of_map

theorem eq_of_prevout {x y : CMasternode} (mns : MasternodeList) (hx : x ∈ mns.vMasternodes)
    (hy : y ∈ mns.vMasternodes) (same : x.vin.prevout = y.vin.prevout) : x = y :=
  inj_on_of_nodup_map mns.distinct hx hy same

/-- A masternode is found by its input. -/
theorem findVin_eq {mn : CMasternode} (mns : MasternodeList) (member : mn ∈ mns.vMasternodes) :
    findVin mns.vMasternodes mn.vin = some mn := by
  have distinct : (mns.vMasternodes.map (fun mn => mn.vin.prevout)).Nodup := mns.distinct
  exact (KeyedList.mem_iff_find distinct mn).mp member

theorem Reordered.countEnabled_eq (same : mns'.Reordered mns) (mnlevel : Nat)
    (protocolVersion chainHeight : Int) :
    countEnabled mns'.vMasternodes mnlevel protocolVersion chainHeight =
      countEnabled mns.vMasternodes mnlevel protocolVersion chainHeight :=
  same.countP_eq _

/-- Every order of some masternodes of a list is their order in an order of the whole list. -/
theorem exists_reordered (mns : MasternodeList) (p : CMasternode → Bool) {some : List CMasternode}
    (perm : some.Perm (mns.vMasternodes.filter p)) :
    ∃ mns' : MasternodeList, mns'.Reordered mns ∧ mns'.vMasternodes.filter p = some := by
  have whole : (some ++ mns.vMasternodes.filter (fun mn => !p mn)).Perm mns.vMasternodes :=
    (perm.append_right _).trans (filter_append_perm p mns.vMasternodes)
  refine ⟨⟨_, (whole.map _).nodup_iff.mpr mns.distinct⟩, whole, ?_⟩
  have all : some.filter p = some := by
    refine filter_eq_self.mpr fun mn member => ?_
    exact (mem_filter.mp (perm.subset member)).2
  have none : (mns.vMasternodes.filter (fun mn => !p mn)).filter p = [] := by
    rw [filter_filter, filter_eq_nil_iff]
    intro mn _
    cases p mn <;> decide
  rw [filter_append, all, none, append_nil]

/-- What is made of the sorted masternodes that pass `p` does not depend on the order of the
list exactly if it is constant on arrangements. -/
theorem reorder_iff {γ : Type} (sorter : Sorter) (mns : MasternodeList) (p : CMasternode → Bool)
    (key : CMasternode → Int) (f : List CMasternode → γ) :
    (∀ mns' : MasternodeList, mns'.Reordered mns →
        f (sorter.sort key (mns'.vMasternodes.filter p)) =
          f (sorter.sort key (mns.vMasternodes.filter p))) ↔
      ∀ r₁ r₂, Arrangement key (mns.vMasternodes.filter p) r₁ →
        Arrangement key (mns.vMasternodes.filter p) r₂ → f r₁ = f r₂ := by
  rw [← sorter.constant_iff f]
  constructor
  · intro free l' perm
    obtain ⟨mns', same, rfl⟩ := mns.exists_reordered p perm
    exact free mns' same
  · intro free mns' same
    exact free _ (same.filter p)

end MasternodeList

/-! ## Ranks -/

section Ranks

variable {env : RanksEnv} {mns : MasternodeList} {vin : CTxIn}

theorem rankOf_absent (entry : CMasternode → Int × CTxIn) (input : ∀ mn, (entry mn).2 = mn.vin)
    {r : List CMasternode} (absent : ∀ mn ∈ r, mn.vin.prevout ≠ vin.prevout) (rank : Int) :
    rankOf vin rank (r.map entry) = -1 := by
  induction r generalizing rank with
  | nil => rfl
  | cons mn r ih =>
    rw [map_cons, rankOf, input, if_neg (absent mn mem_cons_self)]
    exact ih (fun mn' member => absent mn' (mem_cons_of_mem mn member)) (rank + 1)

theorem rankOf_present (entry : CMasternode → Int × CTxIn) (input : ∀ mn, (entry mn).2 = mn.vin)
    {r : List CMasternode} {x : CMasternode} (member : x ∈ r)
    (only : ∀ mn ∈ r, mn.vin.prevout = vin.prevout ↔ mn = x) (rank : Int) :
    rankOf vin rank (r.map entry) = rank + (r.idxOf x : Nat) + 1 := by
  induction r generalizing rank with
  | nil => cases member
  | cons mn r ih =>
    rw [map_cons, rankOf, input]
    by_cases here : mn = x
    · subst here
      rw [if_pos ((only mn mem_cons_self).mpr rfl), idxOf_cons_self]
      omega
    rw [if_neg fun same => here ((only mn mem_cons_self).mp same),
      ih ((mem_cons.mp member).resolve_left (Ne.symm here))
        (fun mn' member' => only mn' (mem_cons_of_mem mn member')),
      idxOf_cons_ne r here]
    omega

/-- The rank does not depend on the order of the list. -/
def RankSettled (env : RanksEnv) (mns : MasternodeList) (vin : CTxIn)
    (nBlockHeight minProtocol : Int) (fOnlyActive : Bool) : Prop :=
  (getBlockHash env.chain env.mapCacheBlockHashes nBlockHeight).1 = none ∨
    ∀ x ∈ mns.vMasternodes.filter (isRanked env minProtocol fOnlyActive),
      x.vin.prevout = vin.prevout →
        ∀ y ∈ mns.vMasternodes.filter (isRanked env minProtocol fOnlyActive),
          compactScore env nBlockHeight y = compactScore env nBlockHeight x → y = x

theorem sort_scoreEntry (nBlockHeight : Int) (l : List CMasternode) :
    env.sorter.sort Prod.fst (l.map (scoreEntry env nBlockHeight)) =
      (env.sorter.sort (compactScore env nBlockHeight) l).map (scoreEntry env nBlockHeight) :=
  env.sorter.sort_map (scoreEntry env nBlockHeight) (fun _ _ => rfl)

theorem getMasternodeRank_free_iff (nBlockHeight minProtocol : Int) (fOnlyActive : Bool) :
    (∀ mns' : MasternodeList, mns'.Reordered mns →
        getMasternodeRank env mns' vin nBlockHeight minProtocol fOnlyActive =
          getMasternodeRank env mns vin nBlockHeight minProtocol fOnlyActive) ↔
      RankSettled env mns vin nBlockHeight minProtocol fOnlyActive := by
  unfold getMasternodeRank RankSettled
  cases (getBlockHash env.chain env.mapCacheBlockHashes nBlockHeight).1 with
  | none => simp
  | some hash =>
    simp only [sort_scoreEntry, reduceCtorEq, false_or]
    rw [MasternodeList.reorder_iff env.sorter mns (isRanked env minProtocol fOnlyActive)
      (compactScore env nBlockHeight)
      (fun r => rankOf vin 0 (r.map (scoreEntry env nBlockHeight)))]
    have arranged := env.sorter.arrangement (compactScore env nBlockHeight)
      (mns.vMasternodes.filter (isRanked env minProtocol fOnlyActive))
    have distinct := mns.nodup.filter (isRanked env minProtocol fOnlyActive)
    have inside : ∀ mn ∈ mns.vMasternodes.filter (isRanked env minProtocol fOnlyActive),
        mn ∈ mns.vMasternodes := fun mn member => (mem_filter.mp member).1
    generalize mns.vMasternodes.filter (isRanked env minProtocol fOnlyActive) = l at *
    by_cases present : ∃ x ∈ l, x.vin.prevout = vin.prevout
    · obtain ⟨x, member, same⟩ := present
      have only : ∀ mn ∈ l, mn.vin.prevout = vin.prevout ↔ mn = x := by
        intro mn member'
        constructor
        · intro same'
          exact mns.eq_of_prevout (inside mn member') (inside x member) (same'.trans same.symm)
        · rintro rfl
          exact same
      have read : ∀ r, Arrangement (compactScore env nBlockHeight) l r →
          rankOf vin 0 (r.map (scoreEntry env nBlockHeight)) = 0 + (r.idxOf x : Nat) + 1 := by
        intro r arranged'
        exact rankOf_present _ (fun _ => rfl) (arranged'.perm.symm.subset member)
          (fun mn member' => only mn (arranged'.perm.subset member')) 0
      have places := idxOf_constant_iff arranged distinct member
      constructor
      · intro constant x' member' same'
        obtain rfl := (only x' member').mp same'
        refine places.mp fun r₁ r₂ arranged₁ arranged₂ => ?_
        have equal := constant r₁ r₂ arranged₁ arranged₂
        rw [read r₁ arranged₁, read r₂ arranged₂] at equal
        omega
      · intro settled r₁ r₂ arranged₁ arranged₂
        rw [read r₁ arranged₁, read r₂ arranged₂,
          places.mpr (settled x member same) r₁ r₂ arranged₁ arranged₂]
    · have absent : ∀ mn ∈ l, mn.vin.prevout ≠ vin.prevout := fun mn member same =>
        present ⟨mn, member, same⟩
      have read : ∀ r, Arrangement (compactScore env nBlockHeight) l r →
          rankOf vin 0 (r.map (scoreEntry env nBlockHeight)) = -1 := fun r arranged' =>
        rankOf_absent _ (fun _ => rfl) (fun mn member => absent mn (arranged'.perm.subset member)) 0
      constructor
      · intro _ x member same
        exact absurd same (absent x member)
      · intro _ r₁ r₂ arranged₁ arranged₂
        rw [read r₁ arranged₁, read r₂ arranged₂]

/-- At most one masternode may hold the rank. -/
def HolderSettled (env : RanksEnv) (mns : MasternodeList) (nRank nBlockHeight minProtocol : Int)
    (fOnlyActive : Bool) : Prop :=
  0 < nRank →
    ∀ x ∈ mns.vMasternodes.filter (isRankedBy minProtocol fOnlyActive),
      ∀ y ∈ mns.vMasternodes.filter (isRankedBy minProtocol fOnlyActive),
        MayStand (compactScore env nBlockHeight)
            (mns.vMasternodes.filter (isRankedBy minProtocol fOnlyActive)) (nRank - 1).toNat x →
          MayStand (compactScore env nBlockHeight)
              (mns.vMasternodes.filter (isRankedBy minProtocol fOnlyActive)) (nRank - 1).toNat y →
            x = y

theorem atRank_eq {r : List CMasternode} (inside : ∀ mn ∈ r, mn ∈ mns.vMasternodes)
    (nBlockHeight nRank rank : Int) :
    atRank mns.vMasternodes nRank rank (r.map (scoreEntry env nBlockHeight)) =
      if rank < nRank then r[(nRank - rank - 1).toNat]? else none := by
  induction r generalizing rank with
  | nil =>
    rw [map_nil, atRank, List.getElem?_nil, ite_self]
  | cons mn r ih =>
    have here := inside mn mem_cons_self
    rw [map_cons, atRank, ih fun mn' member => inside mn' (mem_cons_of_mem mn member)]
    by_cases reached : rank + 1 = nRank
    · rw [if_pos reached, if_pos (by omega), show (nRank - rank - 1).toNat = 0 by omega]
      exact mns.findVin_eq here
    rw [if_neg reached]
    by_cases ahead : rank < nRank
    · rw [if_pos ahead, if_pos (by omega),
        show (nRank - rank - 1).toNat = (nRank - (rank + 1) - 1).toNat + 1 by omega,
        List.getElem?_cons_succ]
    · rw [if_neg ahead, if_neg (by omega)]

theorem getMasternodeByRank_eq (nRank nBlockHeight minProtocol : Int) (fOnlyActive : Bool) :
    getMasternodeByRank env mns nRank nBlockHeight minProtocol fOnlyActive =
      if 0 < nRank then
        (env.sorter.sort (compactScore env nBlockHeight)
          (mns.vMasternodes.filter (isRankedBy minProtocol fOnlyActive)))[(nRank - 1).toNat]?
      else none := by
  have inside : ∀ mn ∈ env.sorter.sort (compactScore env nBlockHeight)
      (mns.vMasternodes.filter (isRankedBy minProtocol fOnlyActive)), mn ∈ mns.vMasternodes :=
    fun mn member => (mem_filter.mp ((env.sorter.arrangement _ _).perm.subset member)).1
  simp only [getMasternodeByRank, sort_scoreEntry]
  rw [atRank_eq inside, Int.sub_zero]

theorem getMasternodeByRank_free_iff (nRank nBlockHeight minProtocol : Int)
    (fOnlyActive : Bool) :
    (∀ mns' : MasternodeList, mns'.Reordered mns →
        getMasternodeByRank env mns' nRank nBlockHeight minProtocol fOnlyActive =
          getMasternodeByRank env mns nRank nBlockHeight minProtocol fOnlyActive) ↔
      HolderSettled env mns nRank nBlockHeight minProtocol fOnlyActive := by
  simp only [getMasternodeByRank_eq]
  unfold HolderSettled
  by_cases positive : 0 < nRank
  · simp only [positive, if_true, true_implies]
    rw [MasternodeList.reorder_iff env.sorter mns (isRankedBy minProtocol fOnlyActive)
      (compactScore env nBlockHeight) (fun r => r[(nRank - 1).toNat]?)]
    exact place_constant_iff (env.sorter.arrangement _ _) (mns.nodup.filter _)
  · simp [positive]

end Ranks

/-! ## The payment queue -/

section Queue

variable {env : RanksEnv} {mns mns' : MasternodeList}

/-- How many masternodes the loop over the oldest looks at. -/
def tenth (env : RanksEnv) (mns : MasternodeList) (mnlevel : Nat) : Nat :=
  max 1 (queueCount env mns mnlevel / 10)

/-- The score by which the queue chooses, as a number. -/
def queueScore (env : RanksEnv) (nBlockHeight : Int) (mn : CMasternode) : Nat :=
  (env.score mn (nBlockHeight - 100)).toNat

/-- The loop over the oldest masternodes finds the best of the first of them. -/
theorem payBest_eq {r : List CMasternode} (inside : ∀ mn ∈ r, mn ∈ mns.vMasternodes)
    (entry : CMasternode → Int × CTxIn) (input : ∀ mn, (entry mn).2 = mn.vin)
    (nBlockHeight : Int) (nCountTenth : Nat) (nHigh : UInt256) (best : Option CMasternode) :
    payBest env mns.vMasternodes nBlockHeight nCountTenth nHigh best (r.map entry) =
      ((r.take (max 1 nCountTenth)).foldl (better (queueScore env nBlockHeight))
        (nHigh.toNat, best)).2 := by
  induction r generalizing nCountTenth nHigh best with
  | nil =>
    rw [map_nil, payBest, take_nil, foldl_nil]
  | cons mn r ih =>
    have found := mns.findVin_eq (inside mn mem_cons_self)
    rw [map_cons, payBest, input]
    simp only [found]
    have turn : better (queueScore env nBlockHeight) (nHigh.toNat, best) mn =
        ((if env.score mn (nBlockHeight - 100) > nHigh then
            (env.score mn (nBlockHeight - 100), some mn) else (nHigh, best)).1.toNat,
          (if env.score mn (nBlockHeight - 100) > nHigh then
            (env.score mn (nBlockHeight - 100), some mn) else (nHigh, best)).2) := by
      by_cases higher : env.score mn (nBlockHeight - 100) > nHigh
      · simp only [if_pos higher]
        exact if_pos higher
      · simp only [if_neg higher]
        exact if_neg higher
    generalize (if env.score mn (nBlockHeight - 100) > nHigh then
      (env.score mn (nBlockHeight - 100), some mn) else (nHigh, best)) = next at turn
    obtain ⟨nHigh', best'⟩ := next
    by_cases last : (nCountTenth : Int) - 1 ≤ 0
    · rw [if_pos last, show max 1 nCountTenth = 0 + 1 by omega, take_succ_cons,
        take_zero, foldl_cons, turn, foldl_nil]
    rw [if_neg last, show max 1 nCountTenth = (nCountTenth - 1) + 1 by omega,
      take_succ_cons, foldl_cons, turn,
      show (nCountTenth : Int) - 1 = ((nCountTenth - 1 : Nat) : Int) by omega,
      ih fun mn' member => inside mn' (mem_cons_of_mem mn member),
      show max 1 (nCountTenth - 1) = nCountTenth - 1 by omega]

theorem getNextMasternodeInQueueForPayment_eq (nBlockHeight : Int) (mnlevel : Nat)
    (fFilterSigTime : Bool) :
    getNextMasternodeInQueueForPayment env mns nBlockHeight mnlevel fFilterSigTime =
      let queue := queuedMasternodes env mns nBlockHeight mnlevel
        (keepsFilter env mns nBlockHeight mnlevel fFilterSigTime)
      (best (queueScore env nBlockHeight)
        ((env.sorter.sort (secondsSincePayment env mns.vMasternodes) queue).take
          (tenth env mns mnlevel)), queue.length) := by
  simp only [getNextMasternodeInQueueForPayment]
  generalize keepsFilter env mns nBlockHeight mnlevel fFilterSigTime = keeps
  have sorted : env.sorter.sort Prod.fst ((queuedMasternodes env mns nBlockHeight mnlevel
      keeps).map (paidEntry env mns.vMasternodes)) =
      (env.sorter.sort (secondsSincePayment env mns.vMasternodes) (queuedMasternodes env mns
        nBlockHeight mnlevel keeps)).map (paidEntry env mns.vMasternodes) :=
    env.sorter.sort_map (paidEntry env mns.vMasternodes) (fun _ _ => rfl)
  have inside : ∀ mn ∈ env.sorter.sort (secondsSincePayment env mns.vMasternodes)
      (queuedMasternodes env mns nBlockHeight mnlevel keeps), mn ∈ mns.vMasternodes :=
    fun mn member => (mem_filter.mp ((env.sorter.arrangement _ _).perm.subset member)).1
  rw [sorted, payBest_eq inside _ (fun _ => rfl), length_map]
  rfl

section

variable (same : mns'.Reordered mns)
include same

theorem queueCount_eq (mnlevel : Nat) :
    queueCount env mns' mnlevel = queueCount env mns mnlevel :=
  same.countEnabled_eq mnlevel _ _

theorem secondsSincePayment_eq :
    secondsSincePayment env mns'.vMasternodes = secondsSincePayment env mns.vMasternodes := by
  funext mn
  unfold secondsSincePayment getLastPaid
  rw [same.countEnabled_eq]

theorem queuedMasternodes_perm (nBlockHeight : Int) (mnlevel : Nat) (fFilterSigTime : Bool) :
    (queuedMasternodes env mns' nBlockHeight mnlevel fFilterSigTime).Perm
      (queuedMasternodes env mns nBlockHeight mnlevel fFilterSigTime) := by
  unfold queuedMasternodes
  rw [queueCount_eq same]
  exact same.filter _

theorem keepsFilter_eq (nBlockHeight : Int) (mnlevel : Nat) (fFilterSigTime : Bool) :
    keepsFilter env mns' nBlockHeight mnlevel fFilterSigTime =
      keepsFilter env mns nBlockHeight mnlevel fFilterSigTime := by
  unfold keepsFilter
  rw [queueCount_eq same, (queuedMasternodes_perm same _ _ _).length_eq]

end

/-- One masternode is to be paid whatever the order of the list: it is surely in the first tenth
and ahead of all that may be there, or nothing that may be there has a score. -/
def NextSettled (env : RanksEnv) (mns : MasternodeList) (nBlockHeight : Int) (mnlevel : Nat)
    (fFilterSigTime : Bool) : Prop :=
  let queue := queuedMasternodes env mns nBlockHeight mnlevel
    (keepsFilter env mns nBlockHeight mnlevel fFilterSigTime)
  let key := secondsSincePayment env mns.vMasternodes
  (∀ y ∈ queue, above key queue (key y) < tenth env mns mnlevel →
      queueScore env nBlockHeight y = 0) ∨
    ∃ x ∈ queue, Settled key (queueScore env nBlockHeight) (tenth env mns mnlevel) queue x

theorem getNextMasternodeInQueueForPayment_free_iff (nBlockHeight : Int) (mnlevel : Nat)
    (fFilterSigTime : Bool) :
    (∀ mns' : MasternodeList, mns'.Reordered mns →
        getNextMasternodeInQueueForPayment env mns' nBlockHeight mnlevel fFilterSigTime =
          getNextMasternodeInQueueForPayment env mns nBlockHeight mnlevel fFilterSigTime) ↔
      NextSettled env mns nBlockHeight mnlevel fFilterSigTime := by
  have arranged := env.sorter.arrangement (secondsSincePayment env mns.vMasternodes)
    (queuedMasternodes env mns nBlockHeight mnlevel
      (keepsFilter env mns nBlockHeight mnlevel fFilterSigTime))
  unfold NextSettled
  rw [← best_constant_iff arranged (mns.nodup.filter _)]
  unfold queuedMasternodes
  rw [← MasternodeList.reorder_iff env.sorter mns _ _
    (fun r => best (queueScore env nBlockHeight) (r.take (tenth env mns mnlevel)))]
  refine forall_congr' fun mns' => forall_congr' fun same => ?_
  rw [getNextMasternodeInQueueForPayment_eq, getNextMasternodeInQueueForPayment_eq]
  simp only [keepsFilter_eq same, secondsSincePayment_eq same, tenth, queueCount_eq same,
    (queuedMasternodes_perm same _ _ _).length_eq, Prod.mk.injEq, and_true]
  unfold queuedMasternodes
  rw [queueCount_eq same]

end Queue

/-- Rank, holder of a rank and masternode to pay are the same for every order of the list
exactly if the place of the masternode, the holder and the one to pay are settled. -/
theorem orderFree_iff (env : RanksEnv) (mns : MasternodeList) (vin : CTxIn)
    (nRank nBlockHeight minProtocol : Int) (fOnlyActive : Bool) (mnlevel : Nat)
    (fFilterSigTime : Bool) :
    (∀ mns' : MasternodeList, mns'.Reordered mns →
        getMasternodeRank env mns' vin nBlockHeight minProtocol fOnlyActive =
            getMasternodeRank env mns vin nBlockHeight minProtocol fOnlyActive ∧
          getMasternodeByRank env mns' nRank nBlockHeight minProtocol fOnlyActive =
            getMasternodeByRank env mns nRank nBlockHeight minProtocol fOnlyActive ∧
          getNextMasternodeInQueueForPayment env mns' nBlockHeight mnlevel fFilterSigTime =
            getNextMasternodeInQueueForPayment env mns nBlockHeight mnlevel fFilterSigTime) ↔
      RankSettled env mns vin nBlockHeight minProtocol fOnlyActive ∧
        HolderSettled env mns nRank nBlockHeight minProtocol fOnlyActive ∧
        NextSettled env mns nBlockHeight mnlevel fFilterSigTime := by
  rw [← getMasternodeRank_free_iff, ← getMasternodeByRank_free_iff,
    ← getNextMasternodeInQueueForPayment_free_iff]
  simp only [← forall_and]

def sampleMasternode (hash : UInt256) : CMasternode where
  vin := { prevout := ⟨hash, 0⟩ }
  payee := []
  pubKeyMasternode := []
  isEnabled := true
  deposit := 5000 * COIN
  sigTime := 0
  protocolVersion := CONSENSUS_FORK_REWARD_UPDATE_PROTOCOL

def samplePair (first second : UInt256) (differ : first ≠ second) : MasternodeList where
  vMasternodes := [sampleMasternode first, sampleMasternode second]
  distinct := by
    simp [sampleMasternode, differ]

/-- A node with a block above its genesis block; the hash of words is their sum, so that the
score of a masternode is the hash of its collateral. -/
def sampleRanksEnv : RanksEnv where
  sha words := words.sum
  paidSha _ _ := 0
  chain := forkedChain 2 (by decide)
  mapCacheBlockHashes := ∅
  adjustedTime := 0
  paymentEnforcement := false
  winnerMinimumAge := 0
  locked := true
  getInputAge _ := 100
  cachedInputAge _ := (0, 0)
  payments := .init
  sorter := .stable

/-- Two masternodes whose scores differ in the last bit have one compact score, and the rank of
the first depends on the order of the list. -/
theorem equal_compact_scores_order :
    ¬ ∀ (env : RanksEnv) (mns mns' : MasternodeList), mns'.Reordered mns →
      ∀ vin nRank nBlockHeight minProtocol fOnlyActive mnlevel fFilterSigTime,
        getMasternodeRank env mns' vin nBlockHeight minProtocol fOnlyActive =
            getMasternodeRank env mns vin nBlockHeight minProtocol fOnlyActive ∧
          getMasternodeByRank env mns' nRank nBlockHeight minProtocol fOnlyActive =
            getMasternodeByRank env mns nRank nBlockHeight minProtocol fOnlyActive ∧
          getNextMasternodeInQueueForPayment env mns' nBlockHeight mnlevel fFilterSigTime =
            getNextMasternodeInQueueForPayment env mns nBlockHeight mnlevel fFilterSigTime := by
  intro claim
  have same := (claim sampleRanksEnv (samplePair (2 ^ 255) (2 ^ 255 + 1) (by decide +kernel))
    (samplePair (2 ^ 255 + 1) (2 ^ 255) (by decide +kernel)) (List.Perm.swap _ _ [])
    { prevout := ⟨2 ^ 255, 0⟩ } 1 1 0 true 1 false).1
  exact absurd same (by decide +kernel)

end Esbcoin
