import Esbcoin.Validation.KernelSound

/-!
# Searching for a kernel

`CheckStakeKernelHash` (`src/kernel.cpp:298-372`) without `fCheck` tries the seconds behind a start
time and keeps the first whose hash hits the target.
-/

namespace Esbcoin

/-- `nTryTime` in turn `i`, which wraps at 32 bits. -/
def tryTime (nTimeTx nHashDrift : UInt32) (i : Nat) : UInt32 :=
  nTimeTx + nHashDrift - UInt32.ofNat i

/-- The loop of `CheckStakeKernelHash` (`kernel.cpp:339-367`) from turn `i` on, with this many turns
left: the second that is found and its hash. `hashAt` hashes a second, and `chainHeight` is the
height that is read in each turn. -/
def tryTimes (hashAt : UInt32 → UInt256) (hits : UInt256 → Bool) (chainHeight : Nat → Int)
    (nHeightStart : Int) (nTimeTx nHashDrift : UInt32) (i : Nat) :
    Nat → Option (UInt32 × UInt256)
  | 0 => none
  | left + 1 =>
    -- a new block came in
    if chainHeight i ≠ nHeightStart then none
    else
      let nTryTime := tryTime nTimeTx nHashDrift i
      if hits (hashAt nTryTime) then some (nTryTime, hashAt nTryTime)
      else tryTimes hashAt hits chainHeight nHeightStart nTimeTx nHashDrift (i + 1) left

/-- `CheckStakeKernelHash` without `fCheck`: the found `nTimeTx` and `hashProofOfStake`. The note of
when the node last hashed is left out. -/
def searchStakeKernelHash (env : StakeEnv) (chainHeight : Nat → Int) (nHeightStart : Int)
    (nBits : UInt32) (blockFrom : CBlock) (nValueIn : Int) (prevout : COutPoint)
    (nTimeTx nHashDrift : UInt32) : Option (UInt32 × UInt256) :=
  let nTimeBlockFrom := blockFrom.nTime
  if nTimeTx < nTimeBlockFrom then none
  -- the sum wraps at 32 bits
  else if nTimeBlockFrom + nStakeMinAge > nTimeTx then none
  else
    (getKernelStakeModifier env.mapBlockIndex env.chainActive blockFrom.getHash nTimeTx).bind
      fun nStakeModifier =>
        tryTimes
          (fun nTryTime =>
            stakeHash env.hash nTryTime nStakeModifier prevout.n prevout.hash nTimeBlockFrom)
          (fun hashProofOfStake => stakeTargetHit hashProofOfStake nValueIn (setCompact nBits))
          chainHeight nHeightStart nTimeTx nHashDrift 0 nHashDrift.toNat

variable {env : StakeEnv} {chainHeight : Nat → Int} {nHeightStart nValueIn : Int}
  {nBits nTimeTx nHashDrift nTryTime : UInt32} {blockFrom : CBlock} {prevout : COutPoint}
  {hashProofOfStake : UInt256}

/-- What the loop finds is a second of one of its turns that hits. -/
theorem hit_of_tryTimes {hashAt : UInt32 → UInt256} {hits : UInt256 → Bool} {i left : Nat}
    (found : tryTimes hashAt hits chainHeight nHeightStart nTimeTx nHashDrift i left =
      some (nTryTime, hashProofOfStake)) :
    (∃ j, j < i + left ∧ nTryTime = tryTime nTimeTx nHashDrift j) ∧
      hashAt nTryTime = hashProofOfStake ∧ hits hashProofOfStake = true := by
  induction left generalizing i with
  | zero => cases found
  | succ left ih =>
    rw [tryTimes] at found
    split at found
    · cases found
    dsimp only at found
    split at found
    · rename_i hit
      obtain ⟨rfl, rfl⟩ := Prod.mk.inj (Option.some.inj found)
      exact ⟨⟨i, by omega, rfl⟩, rfl, hit⟩
    · obtain ⟨⟨j, bound, time⟩, hash, hit⟩ := ih found
      exact ⟨⟨j, by omega, time⟩, hash, hit⟩

theorem toNat_tryTime (room : nTimeTx.toNat + nHashDrift.toNat < 2 ^ 32) {i : Nat}
    (bound : i < nHashDrift.toNat) :
    (tryTime nTimeTx nHashDrift i).toNat = nTimeTx.toNat + nHashDrift.toNat - i := by
  have turn : (UInt32.ofNat i).toNat = i := by
    rw [UInt32.toNat_ofNat']
    exact Nat.mod_eq_of_lt (by omega)
  have sum : (nTimeTx + nHashDrift).toNat = nTimeTx.toNat + nHashDrift.toNat := by
    rw [UInt32.toNat_add]
    exact Nat.mod_eq_of_lt room
  have le : UInt32.ofNat i ≤ nTimeTx + nHashDrift := by
    rw [UInt32.le_iff_toNat_le]
    omega
  rw [tryTime, UInt32.toNat_sub_of_le _ _ le, sum, turn]

/-- What a search has passed that finds a second. -/
theorem start_of_search
    (found : searchStakeKernelHash env chainHeight nHeightStart nBits blockFrom nValueIn prevout
      nTimeTx nHashDrift = some (nTryTime, hashProofOfStake)) :
    ¬ nTimeTx < blockFrom.nTime ∧ ¬ blockFrom.nTime + nStakeMinAge > nTimeTx ∧
      ∃ nStakeModifier, getKernelStakeModifier env.mapBlockIndex env.chainActive blockFrom.getHash
        nTimeTx = some nStakeModifier ∧
      (∃ j, j < nHashDrift.toNat ∧ nTryTime = tryTime nTimeTx nHashDrift j) ∧
      stakeHash env.hash nTryTime nStakeModifier prevout.n prevout.hash blockFrom.nTime =
        hashProofOfStake ∧
      stakeTargetHit hashProofOfStake nValueIn (setCompact nBits) = true := by
  unfold searchStakeKernelHash at found
  dsimp only at found
  split at found
  · cases found
  rename_i notBefore
  split at found
  · cases found
  rename_i old
  obtain ⟨nStakeModifier, modifier, found⟩ := Option.bind_eq_some_iff.mp found
  obtain ⟨⟨j, bound, time⟩, hash, hit⟩ := hit_of_tryTimes found
  exact ⟨notBefore, old, nStakeModifier, modifier, ⟨j, by omega, time⟩, hash, hit⟩

theorem getKernelStakeModifier_sameSide (mapBlockIndex : BlockMap) (chainActive : CChain)
    (hashBlockFrom : UInt256) {nTime nTime' : UInt32}
    (side : CONSENSUS_FORK_PROTO_TIME ≤ nTime ↔ CONSENSUS_FORK_PROTO_TIME ≤ nTime') :
    getKernelStakeModifier mapBlockIndex chainActive hashBlockFrom nTime =
      getKernelStakeModifier mapBlockIndex chainActive hashBlockFrom nTime' := by
  have interval : selectionInterval chainActive.height nTime =
      selectionInterval chainActive.height nTime' := by
    exact if_congr (and_congr_right fun _ => side) rfl rfl
  unfold getKernelStakeModifier
  rw [interval]

/-- No second of the search wraps or lies on the other side of the fork, or no stake is old enough
at its start. -/
def SameSide (nTimeTx nHashDrift : UInt32) : Prop :=
  nTimeTx < nStakeMinAge ∨ nTimeTx.toNat + nHashDrift.toNat < 2 ^ 32 ∧
    (CONSENSUS_FORK_PROTO_TIME ≤ nTimeTx ∨
      nTimeTx.toNat + nHashDrift.toNat < CONSENSUS_FORK_PROTO_TIME.toNat)

/-- No stake is old enough in the first seconds. -/
theorem not_old_of_start (start : nTimeTx < nStakeMinAge) {nTimeBlockFrom : UInt32}
    (notBefore : ¬ nTimeTx < nTimeBlockFrom) : nTimeBlockFrom + nStakeMinAge > nTimeTx := by
  have age : nStakeMinAge.toNat = 14400 := rfl
  rw [UInt32.lt_iff_toNat_lt] at start notBefore
  rw [gt_iff_lt, UInt32.lt_iff_toNat_lt, UInt32.toNat_add, Nat.mod_eq_of_lt (by omega)]
  omega

theorem check_of_search (same : SameSide nTimeTx nHashDrift)
    (found : searchStakeKernelHash env chainHeight nHeightStart nBits blockFrom nValueIn prevout
      nTimeTx nHashDrift = some (nTryTime, hashProofOfStake)) :
    checkStakeKernelHash env nBits blockFrom nValueIn prevout nTryTime = some hashProofOfStake := by
  obtain ⟨notBefore, old, nStakeModifier, modifier, ⟨j, bound, rfl⟩, hash, hit⟩ :=
    start_of_search found
  obtain start | ⟨room, side⟩ := same
  · exact absurd (not_old_of_start start notBefore) old
  have time := toNat_tryTime room bound
  have later : nTimeTx ≤ tryTime nTimeTx nHashDrift j := by
    rw [UInt32.le_iff_toNat_le]
    omega
  have sides : CONSENSUS_FORK_PROTO_TIME ≤ nTimeTx ↔
      CONSENSUS_FORK_PROTO_TIME ≤ tryTime nTimeTx nHashDrift j := by
    rw [UInt32.le_iff_toNat_le, UInt32.le_iff_toNat_le] at *
    omega
  rw [getKernelStakeModifier_sameSide _ _ _ sides] at modifier
  have notBefore' : ¬ tryTime nTimeTx nHashDrift j < blockFrom.nTime :=
    fun before => notBefore (UInt32.lt_of_le_of_lt later before)
  have old' : ¬ blockFrom.nTime + nStakeMinAge > tryTime nTimeTx nHashDrift j :=
    fun young => old (UInt32.lt_of_le_of_lt later young)
  unfold checkStakeKernelHash
  rw [if_neg notBefore', if_neg old', modifier, Option.bind_some, hash, if_pos hit]

/-! ## Seconds that are found and do not pass -/

/-- The entry behind this many seconds, with a modifier. -/
def modifierEntry (nTime : UInt32) (nHeight : Int) (nStakeModifier : UInt64) : CBlockIndex :=
  { phashBlock := none, nHeight, nTime, nStakeModifier, nFlags := { stakeModifier := true } }

/-- A node whose chain has a modifier after each of the two selection intervals. The hashes with one
of them hit every target, and no others do. -/
def searchingNode (nTime : UInt32) (hitModifier : UInt8) : StakeEnv :=
  { stakingNode nTime with
    mapBlockIndex := (((∅ : BlockMap).insert 1 (stakedEntry nTime)).insert 5
      (modifierEntry (nTime + 2087) 1 1)).insert 6 (modifierEntry (nTime + 10800) 2 2)
    chainActive := ⟨[1, 5, 6]⟩
    hash := fun bytes => if bytes.head? = some hitModifier then 0 else BitVec.allOnes 256 }

private theorem modifierEntry_time (nTime seconds : UInt32) (nHeight : Int)
    (nStakeModifier : UInt64) (room : nTime.toNat + seconds.toNat < 2 ^ 32) :
    (modifierEntry (nTime + seconds) nHeight nStakeModifier).getBlockTime =
      nTime.toNat + seconds.toNat := by
  have sum : (nTime + seconds).toNat = nTime.toNat + seconds.toNat := by
    rw [UInt32.toNat_add]
    exact Nat.mod_eq_of_lt room
  exact congrArg Int.ofNat sum

private theorem modifier_searched (nTimeBlockFrom : UInt32) (hitModifier : UInt8)
    (nTime : UInt32) (room : nTimeBlockFrom.toNat + 10800 < 2 ^ 32) :
    getKernelStakeModifier (searchingNode nTimeBlockFrom hitModifier).mapBlockIndex
      (searchingNode nTimeBlockFrom hitModifier).chainActive
      (stakedBlock nTimeBlockFrom).getHash nTime =
      some (if CONSENSUS_FORK_PROTO_TIME ≤ nTime then 2 else 1) := by
  have entry : (searchingNode nTimeBlockFrom hitModifier).mapBlockIndex.lookup
      (stakedBlock nTimeBlockFrom).getHash = some (stakedEntry nTimeBlockFrom) := rfl
  have above : (searchingNode nTimeBlockFrom hitModifier).chainActive.vChain.drop
      ((stakedEntry nTimeBlockFrom).nHeight + 1).toNat = [5, 6] := rfl
  have start : (stakedEntry nTimeBlockFrom).getBlockTime = nTimeBlockFrom.toNat := rfl
  have first : (searchingNode nTimeBlockFrom hitModifier).mapBlockIndex.lookup 5 =
      some (modifierEntry (nTimeBlockFrom + 2087) 1 1) := rfl
  have second : (searchingNode nTimeBlockFrom hitModifier).mapBlockIndex.lookup 6 =
      some (modifierEntry (nTimeBlockFrom + 10800) 2 2) := rfl
  have generated (nTime : UInt32) (nHeight : Int) (nStakeModifier : UInt64) :
      (modifierEntry nTime nHeight nStakeModifier).generatedStakeModifier = true := rfl
  have near : (2087 : UInt32).toNat = 2087 := rfl
  have far : (10800 : UInt32).toNat = 10800 := rfl
  have time := modifierEntry_time nTimeBlockFrom 2087 1 1 (by omega)
  have time' := modifierEntry_time nTimeBlockFrom 10800 2 2 (by omega)
  unfold getKernelStakeModifier
  rw [entry, Option.bind_some, above, start]
  split
  · rename_i late
    rw [selectionInterval_late _ late, laterBySelection, if_pos (by omega), first,
      Option.bind_some, if_pos (generated ..), laterBySelection, if_pos (by omega), second,
      Option.bind_some, if_pos (generated ..), laterBySelection, if_neg (by omega)]
    rfl
  rename_i early
  have interval : selectionInterval (searchingNode nTimeBlockFrom hitModifier).chainActive.height
      nTime = 2087 := by
    unfold selectionInterval
    rw [if_neg fun late => early late.2]
    decide
  rw [interval, laterBySelection, if_pos (by omega), first, Option.bind_some,
    if_pos (generated ..), laterBySelection, if_neg (by omega)]
  rfl

/-- The hashes of this node. -/
private theorem stakeHash_searched (nTimeBlockFrom nTimeTx : UInt32) (hitModifier : UInt8)
    (nStakeModifier : UInt64) (n : UInt32) (prevoutHash : UInt256) :
    stakeHash (searchingNode nTimeBlockFrom hitModifier).hash nTimeTx nStakeModifier n prevoutHash
      nTimeBlockFrom =
      if UInt8.ofNat nStakeModifier.toNat = hitModifier then 0 else BitVec.allOnes 256 := by
  have head : (littleEndian 8 nStakeModifier.toNat ++ littleEndian 4 nTimeBlockFrom.toNat ++
      littleEndian 4 n.toNat ++ littleEndian 32 prevoutHash.toNat ++
      littleEndian 4 nTimeTx.toNat).head? = some (UInt8.ofNat (nStakeModifier.toNat / 256 ^ 0)) :=
    rfl
  show (if List.head? _ = some hitModifier then (0 : UInt256) else BitVec.allOnes 256) = _
  rw [head, Nat.pow_zero, Nat.div_one]
  exact if_congr (Option.some.injEq ..).to_iff rfl rfl

private theorem hit_searched : stakeTargetHit 0 (10 * COIN) (setCompact 0x1e00ffff) = true := by
  decide +kernel

private theorem miss_searched :
    stakeTargetHit (BitVec.allOnes 256) (10 * COIN) (setCompact 0x1e00ffff) = false := by
  decide +kernel

/-- The second from which a search starts. -/
def startModifier (nTimeTx : UInt32) : UInt8 := if CONSENSUS_FORK_PROTO_TIME ≤ nTimeTx then 2 else 1

/-- The last second is found for a stake that is just old enough. -/
private theorem search_searched {nTimeTx nHashDrift : UInt32} (aged : nStakeMinAge ≤ nTimeTx)
    (turns : 0 < nHashDrift.toNat) :
    searchStakeKernelHash (searchingNode (nTimeTx - nStakeMinAge) (startModifier nTimeTx))
      (fun _ => 0) 0 0x1e00ffff (stakedBlock (nTimeTx - nStakeMinAge)) (10 * COIN) ⟨2, 0⟩ nTimeTx
      nHashDrift = some (nTimeTx + nHashDrift, 0) := by
  have age : nStakeMinAge.toNat = 14400 := rfl
  have from_toNat := UInt32.toNat_sub_of_le _ _ aged
  have bound := nTimeTx.toNat_lt
  have notBefore : ¬ nTimeTx < (stakedBlock (nTimeTx - nStakeMinAge)).nTime := by
    show ¬ nTimeTx < nTimeTx - nStakeMinAge
    rw [UInt32.lt_iff_toNat_lt]
    omega
  have old : ¬ (stakedBlock (nTimeTx - nStakeMinAge)).nTime + nStakeMinAge > nTimeTx := by
    show ¬ nTimeTx < nTimeTx - nStakeMinAge + nStakeMinAge
    rw [UInt32.sub_add_cancel]
    exact UInt32.lt_irrefl nTimeTx
  have hash (nTryTime : UInt32) :
      stakeHash (searchingNode (nTimeTx - nStakeMinAge) (startModifier nTimeTx)).hash nTryTime
        (if CONSENSUS_FORK_PROTO_TIME ≤ nTimeTx then 2 else 1) 0 2 (nTimeTx - nStakeMinAge) =
        0 := by
    rw [stakeHash_searched]
    refine if_pos ?_
    unfold startModifier
    split <;> rfl
  obtain ⟨left, turns⟩ := Nat.exists_eq_succ_of_ne_zero (Nat.ne_of_gt turns)
  have time : tryTime nTimeTx nHashDrift 0 = nTimeTx + nHashDrift := UInt32.sub_zero _
  unfold searchStakeKernelHash
  rw [if_neg notBefore, if_neg old, modifier_searched _ _ _ (by rw [from_toNat]; omega),
    Option.bind_some, turns, tryTimes, if_neg (fun differs => differs rfl)]
  dsimp only
  rw [time, show (stakedBlock (nTimeTx - nStakeMinAge)).nTime = nTimeTx - nStakeMinAge from rfl,
    hash, if_pos hit_searched]

/-- Whatever a search of this length finds from this time on passes the check, with the same
hash. -/
def SearchSound (nTimeTx nHashDrift : UInt32) : Prop :=
  ∀ env chainHeight nHeightStart nBits blockFrom nValueIn prevout nTryTime hashProofOfStake,
    searchStakeKernelHash env chainHeight nHeightStart nBits blockFrom nValueIn prevout nTimeTx
      nHashDrift = some (nTryTime, hashProofOfStake) →
    checkStakeKernelHash env nBits blockFrom nValueIn prevout nTryTime = some hashProofOfStake

private theorem check_fails_searched {nTimeTx nHashDrift : UInt32}
    (differs : ¬ SameSide nTimeTx nHashDrift) :
    checkStakeKernelHash (searchingNode (nTimeTx - nStakeMinAge) (startModifier nTimeTx))
      0x1e00ffff (stakedBlock (nTimeTx - nStakeMinAge)) (10 * COIN) ⟨2, 0⟩
      (nTimeTx + nHashDrift) = none := by
  obtain ⟨aged, crosses⟩ := not_or.mp differs
  rw [UInt32.not_lt] at aged
  have age : nStakeMinAge.toNat = 14400 := rfl
  have fork : CONSENSUS_FORK_PROTO_TIME.toNat = 1554746400 := rfl
  have from_toNat := UInt32.toNat_sub_of_le _ _ aged
  have drift := nHashDrift.toNat_lt
  have sum := UInt32.toNat_add nTimeTx nHashDrift
  by_cases young : nTimeTx + nHashDrift < nTimeTx
  · -- the second has wrapped, and the stake is too young for it
    have old : (stakedBlock (nTimeTx - nStakeMinAge)).nTime + nStakeMinAge >
        nTimeTx + nHashDrift := by
      show nTimeTx + nHashDrift < nTimeTx - nStakeMinAge + nStakeMinAge
      rw [UInt32.sub_add_cancel]
      exact young
    unfold checkStakeKernelHash
    dsimp only
    rw [if_pos old]
    exact ite_self none
  -- the second is past the fork, and its modifier is the other one
  rw [UInt32.lt_iff_toNat_lt] at young
  have room : nTimeTx.toNat + nHashDrift.toNat < 2 ^ 32 := by
    by_contra wraps
    omega
  have early : ¬ CONSENSUS_FORK_PROTO_TIME ≤ nTimeTx :=
    fun late => crosses ⟨room, Or.inl late⟩
  have late : CONSENSUS_FORK_PROTO_TIME ≤ nTimeTx + nHashDrift := by
    by_contra before
    rw [UInt32.le_iff_toNat_le] at before
    exact crosses ⟨room, Or.inr (by omega)⟩
  have modifier := modifier_searched (nTimeTx - nStakeMinAge)
    (startModifier nTimeTx) (nTimeTx + nHashDrift) (by omega)
  rw [if_pos late] at modifier
  have misses : ¬ UInt8.ofNat (2 : UInt64).toNat = startModifier nTimeTx := by
    unfold startModifier
    rw [if_neg early]
    decide
  have time : (stakedBlock (nTimeTx - nStakeMinAge)).nTime = nTimeTx - nStakeMinAge := rfl
  unfold checkStakeKernelHash
  dsimp only
  rw [modifier, Option.bind_some, time, stakeHash_searched, if_neg misses, miss_searched]
  exact (congrArg _ (ite_self none)).trans (ite_self none)

/-- A second that is found always passes the check, with the same hash, exactly when the search
stays on one side of the fork and below the end of the time, or no stake can be old enough. -/
theorem search_sound_iff (nTimeTx nHashDrift : UInt32) :
    SearchSound nTimeTx nHashDrift ↔ SameSide nTimeTx nHashDrift := by
  constructor
  · intro sound
    by_contra differs
    have aged : nStakeMinAge ≤ nTimeTx := UInt32.not_lt.mp fun start => differs (Or.inl start)
    have turns : 0 < nHashDrift.toNat := by
      by_contra none
      have bound := nTimeTx.toNat_lt
      have side : CONSENSUS_FORK_PROTO_TIME ≤ nTimeTx ∨
          nTimeTx.toNat < CONSENSUS_FORK_PROTO_TIME.toNat := by
        rw [UInt32.le_iff_toNat_le]
        omega
      refine differs (Or.inr ⟨by omega, side.imp_right fun early => by omega⟩)
    have found := sound _ _ _ _ _ _ _ _ _ (search_searched aged turns)
    rw [check_fails_searched differs] at found
    cases found
  · intro same env chainHeight nHeightStart nBits blockFrom nValueIn prevout nTryTime
      hashProofOfStake found
    exact check_of_search same found

/-- A minute's search that crosses the fork finds a second that does not pass. -/
theorem crossing_search_fails :
    ∃ env chainHeight nHeightStart nBits blockFrom nValueIn prevout nTryTime hashProofOfStake,
      searchStakeKernelHash env chainHeight nHeightStart nBits blockFrom nValueIn prevout 1554746399
        60 = some (nTryTime, hashProofOfStake) ∧
      checkStakeKernelHash env nBits blockFrom nValueIn prevout nTryTime = none :=
  ⟨_, _, _, _, _, _, _, _, _, search_searched (by decide) (by decide),
    check_fails_searched (by unfold SameSide; decide)⟩

end Esbcoin
