import Esbcoin.Validation.TargetHit

namespace Esbcoin

/-- A staked output with its block. -/
structure StakedOutput where
  prevout : COutPoint
  nValueIn : Int
  blockFrom : CBlock

/-- The output is the one that `CheckProofOfStake` finds (`kernel.cpp:381-406`). -/
structure StakedOutput.Found (staked : StakedOutput) (env : StakeEnv) (block : CBlock) : Prop where
  found : ∃ tx txin txPrev hashBlock out pindex, block.vtx[1]? = some tx ∧ tx.vin[0]? = some txin ∧
    txin.prevout = staked.prevout ∧
    getTransaction env.source env.chainActive txin.prevout.hash true = some (txPrev, hashBlock) ∧
    txPrev.vout[txin.prevout.n.toNat]? = some out ∧ out.nValue = staked.nValueIn ∧
    env.mapBlockIndex.lookup hashBlock = some pindex ∧
    pindex.getBlockPos.bind env.readBlockAt = some staked.blockFrom
  nonneg : 0 ≤ staked.nValueIn
  small : staked.nValueIn < 2 ^ 63
  /-- The entry of a block holds the time of its header. -/
  indexed : ∀ pindex, env.mapBlockIndex.lookup staked.blockFrom.getHash = some pindex →
    pindex.nTime = staked.blockFrom.nTime

/-- The kernel is below its target, and the stake is old enough. -/
structure KernelMet (env : StakeEnv) (block : CBlock) (staked : StakedOutput) : Prop where
  aged : staked.blockFrom.nTime.toNat + nStakeMinAge.toNat ≤ block.nTime.toNat
  below : ∃ nStakeModifier, getKernelStakeModifier env.mapBlockIndex env.chainActive
      staked.blockFrom.getHash block.nTime = some nStakeModifier ∧
    MeetsTarget (stakeHash env.hash block.nTime nStakeModifier staked.prevout.n staked.prevout.hash
      staked.blockFrom.nTime) staked.nValueIn (setCompact block.nBits)

variable {env : StakeEnv} {block : CBlock} {staked : StakedOutput}

variable {hashProofOfStake : UInt256} {nTime : UInt32}

/-- What a passed check says about the output it found. -/
theorem kernel_of_check (found : staked.Found env block)
    (passed : checkProofOfStake env block = .ok hashProofOfStake) :
    block.nTime = skippedTime ∨ ∃ hash, checkStakeKernelHash env block.nBits staked.blockFrom
      staked.nValueIn staked.prevout block.nTime = some hash := by
  obtain ⟨tx, txin, txPrev, hashBlock, out, pindex, second, first, prevout, source, output, value,
    entry, read⟩ := found.found
  unfold checkProofOfStake at passed
  rw [bind_ok] at passed
  obtain ⟨tx', readTx, passed⟩ := passed
  rw [orCrash_eq_ok, second] at readTx
  obtain rfl := Option.some.inj readTx
  rw [bind_ok_unit, bind_ok] at passed
  obtain ⟨-, txin', readIn, passed⟩ := passed
  rw [orCrash_eq_ok, first] at readIn
  obtain rfl := Option.some.inj readIn
  rw [source] at passed
  rw [bind_ok] at passed
  obtain ⟨out', readOut, passed⟩ := passed
  rw [orCrash_eq_ok, output] at readOut
  obtain rfl := Option.some.inj readOut
  rw [bind_ok_unit] at passed
  have kernel := passed.2
  unfold checkKernel at kernel
  rw [entry] at kernel
  dsimp only at kernel
  rw [read, prevout, value] at kernel
  dsimp only at kernel
  split at kernel
  · cases kernel
  split at kernel
  · exact Or.inl ‹_›
  · split at kernel
    · cases kernel
    · exact Or.inr ⟨_, ‹_›⟩

/-- No block is late enough for the modifier of a stake whose deadline is past the last time that a
header can hold. -/
theorem laterBySelection_late (mapBlockIndex : BlockMap) {deadline nStakeModifierTime : Int}
    (late : 2 ^ 32 ≤ deadline) (early : nStakeModifierTime < 2 ^ 32) (pindex : CBlockIndex)
    (above : List UInt256) :
    laterBySelection mapBlockIndex deadline nStakeModifierTime pindex above = none := by
  induction above generalizing nStakeModifierTime pindex with
  | nil => exact if_pos (by omega)
  | cons hashNext above ih =>
    rw [laterBySelection, if_pos (by omega)]
    cases mapBlockIndex.lookup hashNext with
    | none => rfl
    | some pindexNext =>
      refine ih ?_ pindexNext
      split
      · have small := pindexNext.nTime.toNat_lt
        unfold CBlockIndex.getBlockTime
        omega
      · exact early

theorem selectionInterval_late (chainHeight : Int) (late : CONSENSUS_FORK_PROTO_TIME ≤ nTime) :
    selectionInterval chainHeight nTime = 10800 := by
  unfold selectionInterval
  rw [if_pos ⟨consensusForkProto_le_activeProtocol chainHeight, late⟩]
  decide

/-- The minimum age of this stake wraps in 32 bits, and a block can be late enough to have its
modifier all the same. -/
def AgeWraps (nTimeBlockFrom nTime : UInt32) : Prop :=
  nTimeBlockFrom ≤ nTime ∧ 2 ^ 32 ≤ nTimeBlockFrom.toNat + nStakeMinAge.toNat ∧
    nTimeBlockFrom.toNat + 10800 < 2 ^ 32

instance (nTimeBlockFrom nTime : UInt32) : Decidable (AgeWraps nTimeBlockFrom nTime) :=
  inferInstanceAs (Decidable (_ ∧ _ ∧ _))

theorem kernelMet_of_check (found : staked.Found env block) (notSkipped : block.nTime ≠ skippedTime)
    (notWrapped : ¬ AgeWraps staked.blockFrom.nTime block.nTime)
    (passed : checkProofOfStake env block = .ok hashProofOfStake) : KernelMet env block staked := by
  obtain ⟨hash, kernel⟩ := (kernel_of_check found passed).resolve_left notSkipped
  unfold checkStakeKernelHash at kernel
  dsimp only at kernel
  split at kernel
  · cases kernel
  rename_i notBefore
  split at kernel
  · cases kernel
  rename_i old
  obtain ⟨nStakeModifier, modifier, kernel⟩ := Option.bind_eq_some_iff.mp kernel
  split at kernel
  · rename_i hit
    refine ⟨?_, nStakeModifier, modifier, meetsTarget_of_hit found.nonneg found.small hit⟩
    rw [UInt32.lt_iff_toNat_lt] at notBefore
    rw [gt_iff_lt, UInt32.lt_iff_toNat_lt, UInt32.toNat_add] at old
    have small := block.nTime.toNat_lt
    by_contra young
    -- The sum has wrapped, and then the search has found no modifier.
    have wraps : 2 ^ 32 ≤ staked.blockFrom.nTime.toNat + nStakeMinAge.toNat := by
      by_contra noWrap
      rw [Nat.mod_eq_of_lt (by omega)] at old
      omega
    have after : staked.blockFrom.nTime ≤ block.nTime := by
      rw [UInt32.le_iff_toNat_le]
      omega
    have late : 2 ^ 32 ≤ staked.blockFrom.nTime.toNat + 10800 := by
      by_contra room
      exact notWrapped ⟨after, wraps, by omega⟩
    have fork : CONSENSUS_FORK_PROTO_TIME ≤ block.nTime := by
      have value : CONSENSUS_FORK_PROTO_TIME.toNat = 1554746400 := rfl
      rw [UInt32.le_iff_toNat_le]
      omega
    obtain ⟨pindexFrom, entry, modifier⟩ := Option.bind_eq_some_iff.mp modifier
    have time : pindexFrom.getBlockTime = staked.blockFrom.nTime.toNat := by
      rw [CBlockIndex.getBlockTime, found.indexed pindexFrom entry]
    rw [time, selectionInterval_late _ fork, laterBySelection_late _ (by omega) (by omega)]
      at modifier
    cases modifier
  · cases kernel

/-! ## Blocks that pass without -/

def stakedBlock (nTime : UInt32) : CBlock where
  nVersion := 1
  hashPrevBlock := 0
  hashMerkleRoot := 0
  nTime := nTime
  nBits := 0
  nNonce := 0
  hash := 1
  vtx := [⟨2, 1, [], [⟨10 * COIN, []⟩], 0, []⟩]

def stakingBlock (nTime nBits : UInt32) : CBlock where
  nVersion := 1
  hashPrevBlock := 1
  hashMerkleRoot := 0
  nTime := nTime
  nBits := nBits
  nNonce := 0
  hash := 4
  vtx := [CTransaction.empty, ⟨3, 1, [{ prevout := ⟨2, 0⟩ }], [⟨0, []⟩, ⟨10 * COIN, []⟩], 0, []⟩]

def stakedEntry (nTime : UInt32) : CBlockIndex :=
  { phashBlock := some 1, nTime, nStatus := { haveData := true } }

/-- The entry above, which has a modifier. -/
def aboveStaked (nTime : UInt32) : CBlockIndex :=
  { phashBlock := some 5, pprev := some 1, nHeight := 1, nTime := nTime + 10800
    nFlags := { stakeModifier := true } }

/-- A node with both, where every hash is 0. -/
def stakingNode (nTime : UInt32) : StakeEnv where
  params := mainParams
  mapBlockIndex := ((∅ : BlockMap).insert 1 (stakedEntry nTime)).insert 5 (aboveStaked nTime)
  chainActive := ⟨[1, 5]⟩
  source :=
    { mempool := ∅
      fTxIndex := true
      txIndex := (∅ : AssocMap UInt256 CDiskTxPos).insert 2 ⟨some ⟨0, 0⟩, 0⟩
      readTx := fun _ => some (1, ⟨2, 1, [], [⟨10 * COIN, []⟩], 0, []⟩)
      readBlockFromDisk := fun _ => none
      pcoinsTip := FlatCoins.empty }
  readBlockAt _ := some (stakedBlock nTime)
  verifyScript _ _ _ _ := true
  hash _ := 0

def sampleStaked (nTime : UInt32) : StakedOutput := ⟨⟨2, 0⟩, 10 * COIN, stakedBlock nTime⟩

theorem sampleStaked_found (nTimeBlockFrom nTime nBits : UInt32) :
    (sampleStaked nTimeBlockFrom).Found (stakingNode nTimeBlockFrom)
      (stakingBlock nTime nBits) where
  found := ⟨_, _, _, _, _, _, rfl, rfl, rfl, rfl, rfl, rfl, rfl, rfl⟩
  nonneg := show (0 : Int) ≤ 10 * COIN by decide
  small := show (10 * COIN : Int) < 2 ^ 63 by decide
  indexed pindex entry := by
    obtain rfl := Option.some.inj entry
    rfl

/-- The output is worth enough, so that only the kernel is left to check. -/
private theorem checkProofOfStake_sample (nTimeBlockFrom nTime nBits : UInt32) :
    checkProofOfStake (stakingNode nTimeBlockFrom) (stakingBlock nTime nBits) =
      if nTime = skippedTime then .ok 0
      else
        match checkStakeKernelHash (stakingNode nTimeBlockFrom) nBits (stakedBlock nTimeBlockFrom)
            (10 * COIN) ⟨2, 0⟩ nTime with
        | none => .error (.error "CheckProofOfStake() : INFO: check kernel failed on coinstake")
        | some hashProofOfStake => .ok hashProofOfStake := by
  have kernel : checkProofOfStake (stakingNode nTimeBlockFrom) (stakingBlock nTime nBits) =
      checkKernel (stakingNode nTimeBlockFrom) (stakingBlock nTime nBits) ⟨2, 0⟩ (10 * COIN) 1 :=
    rfl
  have worth : ¬ 10 * COIN < stakeInputMin mainParams := by decide
  rw [kernel]
  refine (if_neg fun below => worth below.2.2).trans ?_
  rfl

/-- The search for its modifier ends at the block above. -/
private theorem modifier_sample {nTimeBlockFrom : UInt32} (late : CONSENSUS_FORK_PROTO_TIME ≤ nTime)
    (room : nTimeBlockFrom.toNat + 10800 < 2 ^ 32) :
    getKernelStakeModifier (stakingNode nTimeBlockFrom).mapBlockIndex
      (stakingNode nTimeBlockFrom).chainActive (stakedBlock nTimeBlockFrom).getHash nTime =
      some 0 := by
  have time : (aboveStaked nTimeBlockFrom).getBlockTime = nTimeBlockFrom.toNat + 10800 := by
    have sum : (nTimeBlockFrom + 10800).toNat = nTimeBlockFrom.toNat + 10800 := by
      rw [UInt32.toNat_add]
      exact Nat.mod_eq_of_lt room
    exact congrArg Int.ofNat sum
  have next : (stakingNode nTimeBlockFrom).mapBlockIndex.lookup 5 =
      some (aboveStaked nTimeBlockFrom) := rfl
  have generated : (aboveStaked nTimeBlockFrom).generatedStakeModifier = true := rfl
  have search : laterBySelection (stakingNode nTimeBlockFrom).mapBlockIndex
      (nTimeBlockFrom.toNat + 10800) nTimeBlockFrom.toNat (stakedEntry nTimeBlockFrom) [5] =
      some (aboveStaked nTimeBlockFrom) := by
    rw [laterBySelection, if_pos (by omega), next, Option.bind_some, if_pos generated, time,
      laterBySelection, if_neg (by omega)]
  have entry : (stakingNode nTimeBlockFrom).mapBlockIndex.lookup
      (stakedBlock nTimeBlockFrom).getHash = some (stakedEntry nTimeBlockFrom) := rfl
  have above : (stakingNode nTimeBlockFrom).chainActive.vChain.drop
      ((stakedEntry nTimeBlockFrom).nHeight + 1).toNat = [5] := rfl
  have start : (stakedEntry nTimeBlockFrom).getBlockTime = nTimeBlockFrom.toNat := rfl
  unfold getKernelStakeModifier
  rw [entry, Option.bind_some, selectionInterval_late _ late, above, start, search]
  rfl

private theorem wrapped_passes {nTimeBlockFrom : UInt32} (wraps : AgeWraps nTimeBlockFrom nTime) :
    checkStakeKernelHash (stakingNode nTimeBlockFrom) 0x1e00ffff (stakedBlock nTimeBlockFrom)
      (10 * COIN) ⟨2, 0⟩ nTime = some 0 := by
  obtain ⟨after, wraps, room⟩ := wraps
  have age : nStakeMinAge.toNat = 14400 := rfl
  have late : CONSENSUS_FORK_PROTO_TIME ≤ nTime := by
    have value : CONSENSUS_FORK_PROTO_TIME.toNat = 1554746400 := rfl
    rw [UInt32.le_iff_toNat_le] at after ⊢
    omega
  have old : ¬ nTimeBlockFrom + nStakeMinAge > nTime := by
    rw [UInt32.le_iff_toNat_le] at after
    rw [gt_iff_lt, UInt32.lt_iff_toNat_lt, UInt32.toNat_add]
    omega
  have notBefore : ¬ nTime < (stakedBlock nTimeBlockFrom).nTime := UInt32.not_lt.mpr after
  have hit : stakeTargetHit 0 (10 * COIN) (setCompact 0x1e00ffff) = true := by decide +kernel
  refine (if_neg notBefore).trans ((if_neg old).trans ?_)
  rw [modifier_sample late room]
  exact (if_pos hit : ite _ (some (0 : UInt256)) none = _)

theorem not_meetsTarget_zero {nValueIn : Int} :
    ¬ MeetsTarget hashProofOfStake nValueIn (setCompact 0) := by
  have zero : (setCompact 0).toNat = 0 := by decide +kernel
  unfold MeetsTarget
  rw [zero]
  omega

private theorem skipped_passes (nTimeBlockFrom nBits : UInt32) :
    checkProofOfStake (stakingNode nTimeBlockFrom) (stakingBlock skippedTime nBits) = .ok 0 :=
  (checkProofOfStake_sample nTimeBlockFrom skippedTime nBits).trans (if_pos rfl)

/-- All blocks of this time that pass, with stakes of this time, have met the kernel. -/
def SoundAt (nTime nTimeBlockFrom : UInt32) : Prop :=
  ∀ env block staked, StakedOutput.Found staked env block → block.nTime = nTime →
    staked.blockFrom.nTime = nTimeBlockFrom →
    ∀ hashProofOfStake, checkProofOfStake env block = .ok hashProofOfStake →
      KernelMet env block staked

/-- A block that passes has met the kernel, whatever else is chosen, exactly when its time is not
the one that is waved through and the minimum age of its stake does not wrap. -/
theorem proofOfStake_sound_iff (nTime nTimeBlockFrom : UInt32) :
    SoundAt nTime nTimeBlockFrom ↔ nTime ≠ skippedTime ∧ ¬ AgeWraps nTimeBlockFrom nTime := by
  constructor
  · intro sound
    refine ⟨?_, fun wraps => ?_⟩
    · rintro rfl
      have met := sound _ _ _ (sampleStaked_found nTimeBlockFrom skippedTime 0) rfl rfl 0
        (skipped_passes nTimeBlockFrom 0)
      obtain ⟨nStakeModifier, -, below⟩ := met.below
      exact not_meetsTarget_zero below
    have passed : checkProofOfStake (stakingNode nTimeBlockFrom)
        (stakingBlock nTime 0x1e00ffff) = .ok 0 := by
      rw [checkProofOfStake_sample, wrapped_passes wraps]
      exact ite_self _
    have met := sound _ _ _ (sampleStaked_found nTimeBlockFrom nTime 0x1e00ffff) rfl rfl 0 passed
    have aged : nTimeBlockFrom.toNat + nStakeMinAge.toNat ≤ nTime.toNat := met.aged
    have bound := nTime.toNat_lt
    have wrapped := wraps.2.1
    omega
  · rintro ⟨notSkipped, notWrapped⟩ env block staked found rfl rfl hashProofOfStake passed
    exact kernelMet_of_check found notSkipped notWrapped passed

/-- A block of the time that is waved through stakes an output of the same second, at the target
0. -/
theorem waved_through : ∃ env block staked hashProofOfStake, StakedOutput.Found staked env block ∧
    checkProofOfStake env block = .ok hashProofOfStake ∧ block.nBits = 0 ∧
    staked.blockFrom.nTime = block.nTime ∧ ¬ KernelMet env block staked := by
  refine ⟨stakingNode skippedTime, stakingBlock skippedTime 0, sampleStaked skippedTime, 0,
    sampleStaked_found skippedTime skippedTime 0, skipped_passes skippedTime 0, rfl, rfl, ?_⟩
  intro met
  obtain ⟨nStakeModifier, -, below⟩ := met.below
  exact not_meetsTarget_zero below

end Esbcoin
