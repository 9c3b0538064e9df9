import Esbcoin.Chain.ModifierOrigin
import Esbcoin.Validation.KernelSound

/-!
# What nodes on different branches say of a block

`CheckWork` (`src/main.cpp:3324-3347`). The bits it requires and the protocol switches are the same
for all nodes that know the ancestors of the block. The proof of stake is checked with what a node
finds of the staked output and with a modifier that is searched along its own active chain. On
shorter chains than that the verdicts differ (`verdict_differs`); the source says of the check that
it may fail "during initial download or if behind on block chain sync" (`kernel.cpp:417`).
-/

namespace Esbcoin

/-- The input that the coinstake stakes. -/
def CBlock.stakedInput (block : CBlock) : Option CTxIn := block.vtx[1]?.bind fun tx => tx.vin[0]?

namespace StakeEnv

variable (env : StakeEnv)

/-- The bits that `CheckWork` requires. -/
def requiredBits (hashPrev : UInt256) : UInt32 :=
  getNextWorkRequired env.params env.chainActive.height (env.mapBlockIndex.chain hashPrev)

/-- `CheckWork` (`main.cpp:3324-3347`): the kernel hash that is recorded of a proof of stake. -/
def checkWork (block : CBlock) (pindexPrev : Option UInt256) :
    Except Failure (Option UInt256) := do
  match pindexPrev with
  | none => .error (.error "CheckWork : null pindexPrev for block")
  | some hashPrev =>
    rejectIf (block.nBits != env.requiredBits hashPrev)
      (.error "CheckWork : incorrect proof of work at")
    if block.isProofOfStake then (checkProofOfStake env block).map some else .ok none

/-- What is read from the files of the block that is filed under a hash, if there is an entry. -/
def readFiled (hashBlock : UInt256) : Option (Option CBlock) :=
  (env.mapBlockIndex.lookup hashBlock).map fun pindex => pindex.getBlockPos.bind env.readBlockAt

/-- The staked transaction as the node finds it. -/
def findStake (block : CBlock) : Option (CTransaction × Option (Option CBlock)) :=
  block.stakedInput.bind fun txin =>
    (getTransaction env.source env.chainActive txin.prevout.hash true).map
      fun (txPrev, hashBlock) => (txPrev, env.readFiled hashBlock)

/-- The blocks of the active chain above a height, as many as given. -/
def above (nHeight : Int) (n : Nat) : List UInt256 :=
  (env.chainActive.vChain.drop (nHeight + 1).toNat).take n

/-- The search for a modifier, over some blocks of the active chain only. -/
def searchWithin (nTime : UInt32) (pindexFrom : CBlockIndex) (n : Nat) : Option CBlockIndex :=
  laterBySelection env.mapBlockIndex
    (pindexFrom.getBlockTime + selectionInterval env.chainActive.height nTime)
    pindexFrom.getBlockTime pindexFrom (env.above pindexFrom.nHeight n)

end StakeEnv

/-! ## What two nodes share -/

/-- The entries show the same of their blocks: to the modifiers, and to the target. -/
structure CBlockIndex.SameBlock (e e' : CBlockIndex) : Prop where
  alike : e.Alike e'
  bits : e.nBits = e'.nBits

/-- Both nodes know the same ancestors of a block above an entry, under the same rules. -/
structure SameAncestors (env env' : StakeEnv) (hashPrev : UInt256) : Prop where
  params : env.params = env'.params
  verifyScript : env.verifyScript = env'.verifyScript
  hash : env.hash = env'.hash
  ancestors : List.Forall₂ CBlockIndex.SameBlock (env.mapBlockIndex.chain hashPrev)
    (env'.mapBlockIndex.chain hashPrev)

/-- The active chains hold the same blocks above the height of an entry, as many as given. These are
enough for the search for a modifier, or all there are. -/
structure SharesStretch (env env' : StakeEnv) (nTime : UInt32) (e : CBlockIndex) (n : Nat) :
    Prop where
  hashes : env.above e.nHeight n = env'.above e.nHeight n
  entries : ∀ hash ∈ env.above e.nHeight n, Option.Rel CBlockIndex.Alike
    (env.mapBlockIndex.lookup hash) (env'.mapBlockIndex.lookup hash)
  enough : (env.searchWithin nTime e n).isSome = true ∨
    (env.chainActive.height ≤ e.nHeight + n ∧ env'.chainActive.height ≤ e.nHeight + n)

/-- Both nodes have the block of a stake, and their active chains agree above its height as far as
the search for its modifier goes. -/
def SharesSearch (env env' : StakeEnv) (hashFrom : UInt256) (nTime : UInt32) : Prop :=
  ∃ e e' n, env.mapBlockIndex.lookup hashFrom = some e ∧
    env'.mapBlockIndex.lookup hashFrom = some e' ∧ e.Alike e' ∧ SharesStretch env env' nTime e n

/-- Both nodes find the same of the output that a block stakes, and search its modifier alike. -/
structure SharesStake (env env' : StakeEnv) (block : CBlock) : Prop where
  found : env.findStake block = env'.findStake block
  search : ∀ txPrev blockFrom, env.findStake block = some (txPrev, some (some blockFrom)) →
    SharesSearch env env' blockFrom.getHash block.nTime

/-! ## The protocol switches -/

/-- No height is below the fork. -/
theorem selectionInterval_eq (chainHeight chainHeight' : Int) (nTime : UInt32) :
    selectionInterval chainHeight nTime = selectionInterval chainHeight' nTime := by
  simp [selectionInterval, consensusForkProto_le_activeProtocol]

theorem stakeSpacing_eq (activeHeight activeHeight' nBlockTime : Int) :
    stakeSpacing activeHeight nBlockTime = stakeSpacing activeHeight' nBlockTime := by
  simp [stakeSpacing, consensusForkProto_le_activeProtocol]

/-! ## The required bits -/

theorem stakeTarget_congr (params : CChainParams) (activeHeight activeHeight' : Int)
    {e e' : CBlockIndex} (same : e.SameBlock e') {pprev pprev' : Option CBlockIndex}
    (before : Option.Rel CBlockIndex.SameBlock pprev pprev') :
    stakeTarget params activeHeight e pprev = stakeTarget params activeHeight' e' pprev' := by
  have actual : (pprev.map fun pprev => e.getBlockTime - pprev.getBlockTime) =
      pprev'.map fun pprev => e'.getBlockTime - pprev.getBlockTime := by
    cases before with
    | none => rfl
    | some inner => simp [same.alike.blockTime, inner.alike.blockTime]
  unfold stakeTarget
  rw [actual, same.alike.blockTime, same.alike.height, same.bits,
    stakeSpacing_eq activeHeight activeHeight']

theorem DarkGravity.turn_congr (s : DarkGravity) {e e' : CBlockIndex} (same : e.SameBlock e') :
    s.turn e = s.turn e' := by
  unfold turn
  rw [same.alike.blockTime, same.bits]

theorem DarkGravity.loop_congr (s : DarkGravity) {chain chain' : List CBlockIndex}
    (same : List.Forall₂ CBlockIndex.SameBlock chain chain') :
    DarkGravity.loop s chain = DarkGravity.loop s chain' := by
  induction same generalizing s with
  | nil => rfl
  | cons head _ ih => rw [loop, loop, head.alike.height, s.turn_congr head, ih]

/-- The bits depend on the chain below a block only, whatever the height of the active chain. -/
theorem getNextWorkRequired_congr (params : CChainParams) (activeHeight activeHeight' : Int)
    {chain chain' : List CBlockIndex} (same : List.Forall₂ CBlockIndex.SameBlock chain chain') :
    getNextWorkRequired params activeHeight chain =
      getNextWorkRequired params activeHeight' chain' := by
  cases same with
  | nil => rfl
  | @cons e e' below below' head tail =>
    have before : Option.Rel CBlockIndex.SameBlock below.head? below'.head? := by
      cases tail with
      | nil => exact .none
      | cons next _ => exact .some next
    have loop := DarkGravity.loop_congr {} (List.Forall₂.cons head tail)
    rw [getNextWorkRequired, getNextWorkRequired, head.alike.height, loop,
      stakeTarget_congr params activeHeight activeHeight' head before]

/-! ## The search for the modifier -/

/-- A search that has ended is not changed by more blocks. -/
theorem laterBySelection_append {mapBlockIndex : BlockMap} {deadline nStakeModifierTime : Int}
    {pindex found : CBlockIndex} {common : List UInt256} (rest : List UInt256)
    (ended : laterBySelection mapBlockIndex deadline nStakeModifierTime pindex common =
      some found) :
    laterBySelection mapBlockIndex deadline nStakeModifierTime pindex (common ++ rest) =
      some found := by
  induction common generalizing nStakeModifierTime pindex with
  | nil =>
    rw [laterBySelection] at ended
    split at ended
    · cases ended
    rename_i late
    cases rest with
    | nil => simpa [laterBySelection, late] using ended
    | cons hashNext rest => simpa [laterBySelection, late] using ended
  | cons hashNext common ih =>
    rw [laterBySelection] at ended
    rw [List.cons_append, laterBySelection]
    split at ended
    · rename_i early
      rw [if_pos early]
      cases next : mapBlockIndex.lookup hashNext with
      | none =>
        rw [next] at ended
        cases ended
      | some pindexNext =>
        rw [next] at ended
        exact ih ended
    · rename_i late
      rw [if_neg late]
      exact ended

/-- Over entries that look alike the search ends at entries that look alike. -/
theorem laterBySelection_congr {map map' : BlockMap} {above : List UInt256}
    (entries : ∀ hash ∈ above, Option.Rel CBlockIndex.Alike (map.lookup hash) (map'.lookup hash))
    (deadline nStakeModifierTime : Int) {e e' : CBlockIndex} (alike : e.Alike e') :
    Option.Rel CBlockIndex.Alike (laterBySelection map deadline nStakeModifierTime e above)
      (laterBySelection map' deadline nStakeModifierTime e' above) := by
  induction above generalizing nStakeModifierTime e e' with
  | nil =>
    rw [laterBySelection, laterBySelection]
    split
    · exact .none
    · exact .some alike
  | cons hashNext above ih =>
    obtain ⟨next, entries⟩ := List.forall_mem_cons.mp entries
    rw [laterBySelection, laterBySelection]
    split
    · generalize map.lookup hashNext = x at next
      generalize map'.lookup hashNext = x' at next
      cases next with
      | none => exact .none
      | some inner =>
        simp only [Option.bind_some, inner.generated, inner.blockTime]
        exact ih entries _ inner
    · exact .some alike

variable {env env' : StakeEnv} {block : CBlock}

/-- The shared stretch leaves nothing out of the search. -/
theorem SharesStretch.search {nTime : UInt32} {e e' : CBlockIndex} {n : Nat}
    (shares : SharesStretch env env' nTime e n) (alike : e.Alike e') (deadline : Int)
    (interval : deadline = e.getBlockTime + selectionInterval env.chainActive.height nTime) :
    Option.Rel CBlockIndex.Alike
      (laterBySelection env.mapBlockIndex deadline e.getBlockTime e
        (env.chainActive.vChain.drop (e.nHeight + 1).toNat))
      (laterBySelection env'.mapBlockIndex deadline e.getBlockTime e'
        (env'.chainActive.vChain.drop (e.nHeight + 1).toNat)) := by
  have within := laterBySelection_congr shares.entries deadline e.getBlockTime alike
  rcases shares.enough with ended | ⟨short, short'⟩
  · obtain ⟨found, ended⟩ := Option.isSome_iff_exists.mp ended
    unfold StakeEnv.searchWithin at ended
    rw [← interval] at ended
    rw [ended] at within
    cases within' : laterBySelection env'.mapBlockIndex deadline e.getBlockTime e'
        (env.above e.nHeight n) with
    | none =>
      rw [within'] at within
      cases within
    | some found' =>
      rw [within'] at within
      rw [shares.hashes] at within'
      have split : env.chainActive.vChain.drop (e.nHeight + 1).toNat =
          env.above e.nHeight n ++ (env.chainActive.vChain.drop (e.nHeight + 1).toNat).drop n :=
        (List.take_append_drop n _).symm
      have split' : env'.chainActive.vChain.drop (e.nHeight + 1).toNat =
          env'.above e.nHeight n ++ (env'.chainActive.vChain.drop (e.nHeight + 1).toNat).drop n :=
        (List.take_append_drop n _).symm
      rw [split, split', laterBySelection_append _ ended, laterBySelection_append _ within']
      exact within
  · have whole : env.above e.nHeight n = env.chainActive.vChain.drop (e.nHeight + 1).toNat := by
      apply List.take_of_length_le
      rw [List.length_drop]
      unfold CChain.height at short
      omega
    have whole' : env'.above e.nHeight n =
        env'.chainActive.vChain.drop (e.nHeight + 1).toNat := by
      apply List.take_of_length_le
      rw [List.length_drop]
      unfold CChain.height at short'
      omega
    rw [← whole', ← shares.hashes, ← whole]
    exact within

theorem SharesSearch.kernel {hashFrom : UInt256} {nTime : UInt32}
    (shares : SharesSearch env env' hashFrom nTime) :
    getKernelStakeModifier env.mapBlockIndex env.chainActive hashFrom nTime =
      getKernelStakeModifier env'.mapBlockIndex env'.chainActive hashFrom nTime := by
  obtain ⟨e, e', n, entry, entry', alike, stretch⟩ := shares
  have search := stretch.search alike _ rfl
  unfold getKernelStakeModifier
  rw [entry, entry', Option.bind_some, Option.bind_some, ← alike.height, ← alike.blockTime,
    selectionInterval_eq env'.chainActive.height env.chainActive.height]
  generalize laterBySelection env.mapBlockIndex _ _ e _ = found at search
  generalize laterBySelection env'.mapBlockIndex _ _ e' _ = found' at search
  cases search with
  | none => rfl
  | some inner => exact congrArg some inner.modifier

/-! ## The verdict -/

/-- Behind the script the blocks of the stake are what counts, with the hashes of their kernels. -/
theorem checkKernel_congr (params : env.params = env'.params) {hashBlock hashBlock' : UInt256}
    (read : env.readFiled hashBlock = env'.readFiled hashBlock') (prevout : COutPoint)
    (nValueIn : Int)
    (kernel : ∀ blockFrom, env.readFiled hashBlock = some (some blockFrom) →
      checkStakeKernelHash env block.nBits blockFrom nValueIn prevout block.nTime =
        checkStakeKernelHash env' block.nBits blockFrom nValueIn prevout block.nTime) :
    checkKernel env block prevout nValueIn hashBlock =
      checkKernel env' block prevout nValueIn hashBlock' := by
  unfold StakeEnv.readFiled at read kernel
  unfold checkKernel
  cases entry : env.mapBlockIndex.lookup hashBlock with
  | none =>
    cases entry' : env'.mapBlockIndex.lookup hashBlock' with
    | none => rfl
    | some e' =>
      rw [entry, entry'] at read
      cases read
  | some e =>
    cases entry' : env'.mapBlockIndex.lookup hashBlock' with
    | none =>
      rw [entry, entry'] at read
      cases read
    | some e' =>
      rw [entry, entry', Option.map_some, Option.map_some, Option.some.injEq] at read
      simp only [entry, Option.map_some, Option.some.injEq] at kernel
      simp only [← read, ← params, ge_iff_le, consensusForkProto_le_activeProtocol, true_and]
      cases from_ : e.getBlockPos.bind env.readBlockAt with
      | none => rfl
      | some blockFrom => simp only [kernel blockFrom from_]

theorem SharesStake.checkProofOfStake (shares : SharesStake env env' block)
    (params : env.params = env'.params) (verifyScript : env.verifyScript = env'.verifyScript)
    (hash : env.hash = env'.hash) :
    checkProofOfStake env block = Esbcoin.checkProofOfStake env' block := by
  have found := shares.found
  have search := shares.search
  unfold StakeEnv.findStake CBlock.stakedInput at found search
  refine bind_congr_ok fun tx second => bind_congr_ok fun _ _ => bind_congr_ok fun txin first => ?_
  rw [orCrash_eq_ok] at second first
  simp only [second, Option.bind_some, first] at found search
  cases source : getTransaction env.source env.chainActive txin.prevout.hash true with
  | none =>
    cases source' : getTransaction env'.source env'.chainActive txin.prevout.hash true with
    | none => rfl
    | some result =>
      rw [source, source'] at found
      cases found
  | some result =>
    cases source' : getTransaction env'.source env'.chainActive txin.prevout.hash true with
    | none =>
      rw [source, source'] at found
      cases found
    | some result' =>
      obtain ⟨txPrev, hashBlock⟩ := result
      obtain ⟨txPrev', hashBlock'⟩ := result'
      simp only [source, source', Option.map_some, Option.some.injEq, Prod.mk.injEq]
        at found search
      obtain ⟨rfl, read⟩ := found
      refine bind_congr_ok fun out _ => ?_
      rw [verifyScript]
      refine bind_congr_ok fun _ _ => checkKernel_congr params read _ _ fun blockFrom from_ => ?_
      unfold checkStakeKernelHash
      rw [(search txPrev blockFrom ⟨rfl, from_⟩).kernel, hash]

/-- The protocol switch is the same in all nodes, and so are the required bits where the ancestors
of the block are known. Where the stake is shared too, so is the verdict. -/
theorem same_verdict (same : SameAncestors env env' block.hashPrevBlock) :
    (CONSENSUS_FORK_PROTO ≤ activeProtocol env.chainActive.height ↔
        CONSENSUS_FORK_PROTO ≤ activeProtocol env'.chainActive.height) ∧
      env.requiredBits block.hashPrevBlock = env'.requiredBits block.hashPrevBlock ∧
      ((block.isProofOfStake = true → SharesStake env env' block) →
        env.checkWork block (some block.hashPrevBlock) =
          env'.checkWork block (some block.hashPrevBlock)) := by
  have bits : env.requiredBits block.hashPrevBlock = env'.requiredBits block.hashPrevBlock := by
    unfold StakeEnv.requiredBits
    rw [same.params]
    exact getNextWorkRequired_congr _ _ _ same.ancestors
  refine ⟨?_, bits, fun shares => ?_⟩
  · exact iff_of_true (consensusForkProto_le_activeProtocol _)
      (consensusForkProto_le_activeProtocol _)
  unfold StakeEnv.checkWork
  simp only [bits]
  by_cases stakes : block.isProofOfStake = true
  · rw [(shares stakes).checkProofOfStake same.params same.verifyScript same.hash]
  · simp only [stakes, Bool.false_eq_true, if_false]

/-! ## Nodes on longer and shorter chains -/

/-- A node with a staked block and one above it that has a modifier, on an active chain. -/
def nodeOn (vChain : List UInt256) : StakeEnv :=
  { stakingNode 1600000000 with chainActive := ⟨vChain⟩ }

def forkBlock : CBlock :=
  { stakingBlock 1600020000 (getCompact (startWork mainParams) false) with hashPrevBlock := 5 }

/-- A node that has gone on by another block. -/
def nodeAhead : StakeEnv :=
  { nodeOn [1, 5, 6] with
    mapBlockIndex := (stakingNode 1600000000).mapBlockIndex.insert 6
      { phashBlock := some 6, pprev := some 5, nHeight := 2, nTime := 1600011000 } }

theorem nodeOn_ancestors (vChain vChain' : List UInt256) (hashPrev : UInt256) :
    SameAncestors (nodeOn vChain) (nodeOn vChain') hashPrev where
  params := rfl
  verifyScript := rfl
  hash := rfl
  ancestors := List.forall₂_same.mpr fun e _ => ⟨.refl e, rfl⟩

theorem nodeAhead_ancestors : SameAncestors (nodeOn [1, 5]) nodeAhead forkBlock.hashPrevBlock where
  params := rfl
  verifyScript := rfl
  hash := rfl
  ancestors := by
    have same : nodeAhead.mapBlockIndex.chain forkBlock.hashPrevBlock =
        (nodeOn [1, 5]).mapBlockIndex.chain forkBlock.hashPrevBlock := by decide +kernel
    rw [same]
    exact List.forall₂_same.mpr fun e _ => ⟨.refl e, rfl⟩

/-- The search for the modifier ends at the block which both have above the staked one. -/
theorem nodeAhead_shares : SharesStake (nodeOn [1, 5]) nodeAhead forkBlock where
  found := rfl
  search txPrev blockFrom found := by
    obtain ⟨-, rfl⟩ : _ ∧ stakedBlock 1600000000 = blockFrom := by
      have staked : (nodeOn [1, 5]).findStake forkBlock =
        some (⟨2, 1, [], [⟨10 * COIN, []⟩], 0, []⟩, some (some (stakedBlock 1600000000))) := rfl
      rw [staked] at found
      simpa using found
    refine ⟨stakedEntry 1600000000, stakedEntry 1600000000, 1, rfl, rfl, .refl _, rfl, ?_, ?_⟩
    · intro hash member
      obtain rfl := List.mem_singleton.mp member
      exact .some (.refl (aboveStaked 1600000000))
    · exact Or.inl (by decide +kernel)

theorem same_verdict_ahead :
    (nodeOn [1, 5]).checkWork forkBlock (some forkBlock.hashPrevBlock) =
      nodeAhead.checkWork forkBlock (some forkBlock.hashPrevBlock) :=
  (same_verdict nodeAhead_ancestors).2.2 fun _ => nodeAhead_shares

/-- Two nodes that differ in the height of their active chains only: the one that stands at the
staked block finds no modifier. -/
theorem verdict_differs :
    SameAncestors (nodeOn [1, 5]) (nodeOn [1]) forkBlock.hashPrevBlock ∧
      (nodeOn [1, 5]).findStake forkBlock = (nodeOn [1]).findStake forkBlock ∧
      (nodeOn [1, 5]).checkWork forkBlock (some forkBlock.hashPrevBlock) = .ok (some 0) ∧
      (nodeOn [1]).checkWork forkBlock (some forkBlock.hashPrevBlock) =
        .error (.error "CheckProofOfStake() : INFO: check kernel failed on coinstake") :=
  ⟨nodeOn_ancestors _ _ _, rfl, by decide +kernel, by decide +kernel⟩

end Esbcoin
