import Esbcoin.Validation.MoneySupply
import Esbcoin.Validation.StakeSpent
import Esbcoin.Validation.VerifyDB

/-!
# Runs of the node and the recently spent outputs

`ConnectTip`, `DisconnectTip` and `VerifyDB`, which calls `ConnectBlock` and `DisconnectBlock` on a
view of its own, all change `mapStakeSpent`. Through every run the map holds the spends of the
active chain at the heights of a cover that each call changes in a simple way.
-/

namespace Esbcoin

open StateRel StepRun

/-! ## Calls on the node -/

/-- What the node does to its chain and its tables. -/
inductive NodeAction where
  | tip (a : TipAction)
  | verify (env : VerifyEnv) (coinsview : CoinsView) (nCheckLevel nCheckDepth : Int)

/-- A step of the node. -/
def nodeStep (c : ChainState) : NodeAction → ChainState
  | .tip a => tipStep c a
  | .verify env coinsview nCheckLevel nCheckDepth =>
    match verifyDB env coinsview nCheckLevel nCheckDepth c.node with
    | none => c
    | some result => { c with node := (stateOf result).node }

/-- `DisconnectTip` gets as far as taking the block back. -/
def undoesTip (env : TipEnv) (c : ChainState) : Bool :=
  match c.node.chainActive.tip with
  | none => false
  | some hash =>
    match c.node.mapBlockIndex.lookup hash, readBlockFromDisk env hash with
    | some pindex, some block =>
      match disconnectBlock env.toConnectEnv block ⟨c.node, pindex, c.view⟩ with
      | .ok _ _ => true
      | .error _ _ => false
    | _, _ => false

/-- The height of an entry. -/
def NodeState.heightOf (node : NodeState) (hash : UInt256) : Int :=
  ((node.mapBlockIndex.lookup hash).map CBlockIndex.nHeight).getD 0

/-- The cover after a call: a block that is connected comes in and cuts off what is too far below,
and what is disconnected goes. -/
def coverStep (params : CChainParams) (c : ChainState) (cover : Int → Prop) :
    NodeAction → Int → Prop
  | .tip (.connect env hash pblock fAlreadyChecked) =>
    match connectTip env hash (handedOver hash pblock) fAlreadyChecked c with
    | .ok _ _ => spanTo params.maxReorganizationDepth c.node.chainActive.height
        (c.node.chainActive.height + 1) cover
    | .error _ _ => cover
  | .tip (.disconnect env) =>
    if undoesTip env c then cutAbove (c.node.chainActive.height - 1) cover else cover
  | .verify env coinsview nCheckLevel nCheckDepth =>
    match verifyDB env coinsview nCheckLevel nCheckDepth c.node with
    | none => cover
    | some result =>
      let v := stateOf result
      let k := v.node.heightOf v.pindexState
      spanTo params.maxReorganizationDepth k ((v.pindex.map v.node.heightOf).getD k)
        (cutAbove k cover)

/-- A call, on the state and on the cover. -/
def trackStep (params : CChainParams) (s : ChainState × (Int → Prop)) (a : NodeAction) :
    ChainState × (Int → Prop) :=
  (nodeStep s.1 a, coverStep params s.1 s.2 a)

/-- The disk gives back the block, with an undo record for each input. -/
def UndoesWhole (blocks : UInt256 → CBlock) (env : TipEnv) (node : NodeState)
    (hash : UInt256) : Prop :=
  ∀ block, readBlockFromDisk env hash = some block → block = blocks hash ∧
    ∀ pindex view vtxundo, node.mapBlockIndex.lookup hash = some pindex →
      loadUndo env.toConnectEnv block ⟨node, pindex, view⟩ = .ok vtxundo → UndoFits block vtxundo

/-- A call of an orderly run: a hash stands for one block, a block that is connected spends
nothing that the chain has spent, its state is written, and undo data fits its block. -/
def Orderly (blocks : UInt256 → CBlock) (params : CChainParams) (c : ChainState) :
    NodeAction → Prop
  | .tip (.connect env hash pblock _) =>
    env.params = params ∧ env.flushStateToDisk = true ∧
      ∀ block, blockToConnect env hash (handedOver hash pblock) = some block →
        block = blocks hash ∧ ∀ out ∈ block.spentOutPoints, ∀ nHeight,
          ¬ SpentAt blocks c.node.chainActive out nHeight
  | .tip (.disconnect env) =>
    ∀ hash, c.node.chainActive.tip = some hash → UndoesWhole blocks env c.node hash
  | .verify env _ _ _ => ∀ hash ∈ c.node.chainActive.vChain,
    (env.tipEnv hash).params = params ∧ UndoesWhole blocks (env.tipEnv hash) c.node hash

/-- What holds throughout an orderly run. -/
structure StakeInvariant (blocks : UInt256 → CBlock) (params : CChainParams) (c : ChainState)
    (cover : Int → Prop) : Prop where
  sound : c.Sound
  genesis : ∀ pindex, c.node.mapBlockIndex.lookup params.hashGenesisBlock = some pindex →
    pindex.pprev = none
  unique : UniqueSpends blocks c.node.chainActive
  holds : HoldsSpends blocks c.node.chainActive c.node.mapStakeSpent cover
  below : ∀ h, cover h → h ≤ c.node.chainActive.height

section Connect

variable {blocks : UInt256 → CBlock} {params : CChainParams} {c c' : ChainState}
variable {cover : Int → Prop} {env : TipEnv} {hash : UInt256} {pblock : Option CBlock}
variable {fAlreadyChecked : Bool}

theorem connectTip_mapStakeSpent (sound : c.Sound) (hparams : env.params = params)
    (connects : connectTip env hash (handedOver hash pblock) fAlreadyChecked c = .ok () c') :
    ∃ block, blockToConnect env hash (handedOver hash pblock) = some block ∧
      c'.node.mapStakeSpent = if hash = params.hashGenesisBlock then c.node.mapStakeSpent
        else addStakeSpent params block c.node.chainActive.vChain.length c.node.mapStakeSpent := by
  obtain ⟨pindex, block, s, found, prev, read, connected, rfl⟩ := connectTip_ok sound connects
  obtain ⟨own, -⟩ := filed_of_lookup sound found
  have hashed := getHash_of_blockToConnect read
  refine ⟨block, read, ?_⟩
  by_cases genesis : hash = params.hashGenesisBlock
  · rw [if_pos genesis]
    exact ((keeps_connectBlock_genesis _ _ _ _ (by rw [hashed, hparams, genesis])).of_ok
      connected).mapStakeSpent
  rw [if_neg genesis]
  have effect := (addsSpends_connectBlock env.toConnectEnv block
    ((handedOver hash pblock).isSome && fAlreadyChecked) (by rw [hashed, hparams]; exact genesis)
    ⟨c.node, pindex, c.view⟩ (by simp [own])).2
  rw [connected, hparams] at effect
  rw [← sound.linked.nHeight_of_pprev sound.wellFormed found prev]
  exact effect

/-- A `ConnectTip` that fails before the state is to be written leaves the map as it is. -/
theorem connectTip_error_mapStakeSpent (sound : c.Sound) {failure : Failure}
    (flushes : env.flushStateToDisk = true)
    (fails : connectTip env hash pblock fAlreadyChecked c = .error failure c') :
    c'.node.mapStakeSpent = c.node.mapStakeSpent := by
  unfold connectTip at fails
  split at fails
  · obtain ⟨-, rfl⟩ := EStateM.Result.error.inj fails
    rfl
  rename_i pindex found
  split at fails
  · obtain ⟨-, rfl⟩ := EStateM.Result.error.inj fails
    rfl
  split at fails
  · obtain ⟨-, rfl⟩ := EStateM.Result.error.inj fails
    rfl
  rename_i block read
  obtain ⟨own, -⟩ := filed_of_lookup sound found
  split at fails
  · rename_i failure' s connectFails
    obtain ⟨-, rfl⟩ := EStateM.Result.error.inj fails
    have same : s.node.mapStakeSpent = c.node.mapStakeSpent := by
      by_cases genesis : block.getHash = env.params.hashGenesisBlock
      · have quiet := keeps_connectBlock_genesis env.toConnectEnv block false
          (pblock.isSome && fAlreadyChecked) genesis ⟨c.node, pindex, c.view⟩
        rw [connectFails] at quiet
        exact quiet.mapStakeSpent
      have effect := (addsSpends_connectBlock env.toConnectEnv block
        (pblock.isSome && fAlreadyChecked) genesis ⟨c.node, pindex, c.view⟩
        (by simp [own])).2
      rw [connectFails] at effect
      exact effect
    rw [← same]
    unfold invalidBlockFound
    split
    · split <;> rfl
    · rfl
  · simp [flushes] at fails

theorem genesis_of_connectTip (sound : c.Sound)
    (genesis : ∀ pindex, c.node.mapBlockIndex.lookup params.hashGenesisBlock = some pindex →
      pindex.pprev = none) (h : stateOf (connectTip env hash pblock fAlreadyChecked c) = c') :
    ∀ pindex, c'.node.mapBlockIndex.lookup params.hashGenesisBlock = some pindex →
      pindex.pprev = none := by
  intro pindex found
  obtain ⟨pindex', found', place⟩ := (connectTip_index sound h).1.symm.lookup found
  exact (congrArg (fun place => place.2.1) place).symm.trans (genesis pindex' found')

section

variable (invariant : StakeInvariant blocks params c cover)
include invariant

theorem StakeInvariant.connect_error (flushes : env.flushStateToDisk = true) {failure : Failure}
    (fails : connectTip env hash (handedOver hash pblock) fAlreadyChecked c = .error failure c') :
    StakeInvariant blocks params c' cover := by
  have sound := invariant.sound
  have chain := connectTip_error sound fails
  have state : stateOf (connectTip env hash (handedOver hash pblock) fAlreadyChecked c) = c' := by
    rw [fails, stateOf_error]
  have sound' := sound.step (.connect env hash pblock fAlreadyChecked)
  rw [tipStep, state] at sound'
  refine ⟨sound', genesis_of_connectTip sound invariant.genesis state, ?_, ?_, ?_⟩
  · rw [chain]
    exact invariant.unique
  · rw [chain, connectTip_error_mapStakeSpent sound flushes fails]
    exact invariant.holds
  · rw [chain]
    exact invariant.below

theorem vChain_of_genesis {pindex : CBlockIndex}
    (found : c.node.mapBlockIndex.lookup params.hashGenesisBlock = some pindex)
    (prev : pindex.pprev = c.node.chainActive.tip) : c.node.chainActive.vChain = [] := by
  rw [invariant.genesis pindex found] at prev
  exact List.getLast?_eq_none_iff.mp prev.symm

theorem StakeInvariant.connect_ok (noSpends : (blocks params.hashGenesisBlock).spentOutPoints = [])
    (orderly : Orderly blocks params c (.tip (.connect env hash pblock fAlreadyChecked)))
    (connects : connectTip env hash (handedOver hash pblock) fAlreadyChecked c = .ok () c') :
    StakeInvariant blocks params c' (spanTo params.maxReorganizationDepth
      c.node.chainActive.height (c.node.chainActive.height + 1) cover) := by
  have sound := invariant.sound
  obtain ⟨hparams, -, good⟩ := orderly
  have state : stateOf (connectTip env hash (handedOver hash pblock) fAlreadyChecked c) = c' := by
    rw [connects, stateOf_ok]
  have sound' := sound.step (.connect env hash pblock fAlreadyChecked)
  rw [tipStep, state] at sound'
  obtain ⟨pindex, _, _, found, prev, -, -, chain⟩ := connectTip_ok sound connects
  have chain : c'.node.chainActive = ⟨c.node.chainActive.vChain ++ [hash]⟩ := by rw [chain]
  obtain ⟨block, read, spends⟩ := connectTip_mapStakeSpent sound hparams connects
  obtain ⟨rfl, fresh⟩ := good block read
  have height : c.node.chainActive.height + 1 = c.node.chainActive.vChain.length := by
    unfold CChain.height
    omega
  -- The cover ends below the new block, so the old spends in it are those of the old chain.
  have old : ∀ out h, cover h → (SpentAt blocks ⟨c.node.chainActive.vChain ++ [hash]⟩ out h ↔
      SpentAt blocks c.node.chainActive out h) := by
    intro out h covered
    have := invariant.below h covered
    rw [spentAt_append]
    constructor
    · rintro (at' | ⟨top, -⟩)
      · exact at'
      · omega
    · exact Or.inl
  have unique : UniqueSpends blocks ⟨c.node.chainActive.vChain ++ [hash]⟩ := by
    intro out first second atFirst atSecond
    rw [spentAt_append] at atFirst atSecond
    rcases atFirst with atFirst | ⟨topFirst, member⟩
    · rcases atSecond with atSecond | ⟨-, member⟩
      · exact invariant.unique out _ _ atFirst atSecond
      · exact absurd atFirst (fresh out member _)
    · rcases atSecond with atSecond | ⟨topSecond, -⟩
      · exact absurd atSecond (fresh out member _)
      · rw [topFirst, topSecond]
  refine ⟨sound', genesis_of_connectTip sound invariant.genesis state, by rwa [chain], ?_, ?_⟩
  · rw [chain, spends]
    by_cases genesis : hash = params.hashGenesisBlock
    · subst genesis
      have empty := vChain_of_genesis invariant found prev
      have none : ∀ out h, ¬ SpentAt blocks c.node.chainActive out h := by
        rintro out h ⟨i, _, -, here, -⟩
        rw [empty] at here
        simp at here
      rw [if_pos rfl]
      intro out h
      rw [invariant.holds, spentAt_append, noSpends]
      simp [none]
    · rw [if_neg genesis, height]
      have here : (c.node.chainActive.vChain ++ [hash])[c.node.chainActive.vChain.length]? =
          some hash := List.getElem?_concat_length
      refine (invariant.holds.of_same old).connect (fun h covered => ?_) unique here
      have := invariant.below h covered
      omega
  · rw [chain]
    intro h covered
    have := spanTo_le invariant.below (by omega) h covered
    unfold CChain.height at *
    rw [List.length_append, List.length_singleton]
    omega

end

end Connect

section Disconnect

variable {blocks : UInt256 → CBlock} {params : CChainParams} {c c' : ChainState}
variable {cover : Int → Prop} {env : TipEnv}

/-- A `DisconnectTip` that does not get as far as taking the block back changes nothing. -/
theorem disconnectTip_of_not_undoesTip
    (whole : ∀ hash, c.node.chainActive.tip = some hash → UndoesWhole blocks env c.node hash)
    (early : undoesTip env c = false) :
    (stateOf (disconnectTip env c)).node.mapStakeSpent = c.node.mapStakeSpent ∧
      (stateOf (disconnectTip env c)).node.chainActive = c.node.chainActive := by
  unfold undoesTip at early
  unfold disconnectTip
  cases tip : c.node.chainActive.tip with
  | none => exact ⟨rfl, rfl⟩
  | some hash =>
    simp only [tip] at early ⊢
    cases found : c.node.mapBlockIndex.lookup hash with
    | none => exact ⟨rfl, rfl⟩
    | some pindex =>
      cases read : readBlockFromDisk env hash with
      | none => exact ⟨rfl, rfl⟩
      | some block =>
        simp only [found, read] at early
        obtain ⟨rfl, fits⟩ := whole hash tip block read
        have effect := disconnectBlock_mapStakeSpent env.toConnectEnv (blocks hash)
          ⟨c.node, pindex, c.view⟩ fun vtxundo loaded => fits pindex c.view vtxundo found loaded
        have same := keeps_disconnectBlock env.toConnectEnv (blocks hash) ⟨c.node, pindex, c.view⟩
        cases result : disconnectBlock env.toConnectEnv (blocks hash) ⟨c.node, pindex, c.view⟩ with
        | ok clean s => simp [result] at early
        | error failure s =>
          rw [result] at effect same
          simp only [result]
          exact ⟨effect, same.chainActive⟩

/-- A `DisconnectTip` that takes the block back erases its spends, and drops the tip if it
succeeds. -/
theorem disconnectTip_of_undoesTip (sound : c.Sound)
    (whole : ∀ hash, c.node.chainActive.tip = some hash → UndoesWhole blocks env c.node hash)
    (undone : undoesTip env c = true) :
    ∃ hash, c.node.chainActive.tip = some hash ∧
      (∀ out, (stateOf (disconnectTip env c)).node.mapStakeSpent.lookup out =
        if out ∈ (blocks hash).spentOutPoints then none else c.node.mapStakeSpent.lookup out) ∧
      ((stateOf (disconnectTip env c)).node.chainActive = c.node.chainActive ∨
        (stateOf (disconnectTip env c)).node.chainActive =
          ⟨c.node.chainActive.vChain.dropLast⟩) := by
  have chain : (stateOf (disconnectTip env c)).node.chainActive = c.node.chainActive ∨
      (stateOf (disconnectTip env c)).node.chainActive = ⟨c.node.chainActive.vChain.dropLast⟩ := by
    cases result : disconnectTip env c with
    | error failure c' => exact Or.inl (disconnectTip_error result)
    | ok _ c' =>
      obtain ⟨_, _, _, _, -, -, -, -, -, rfl⟩ := disconnectTip_ok sound result
      exact Or.inr rfl
  unfold undoesTip at undone
  split at undone
  · cases undone
  rename_i hash tip
  refine ⟨hash, tip, ?_, chain⟩
  unfold disconnectTip
  simp only [tip]
  split at undone
  · rename_i pindex block found read
    simp only [found, read]
    obtain ⟨rfl, fits⟩ := whole hash tip block read
    have effect := disconnectBlock_mapStakeSpent env.toConnectEnv (blocks hash)
      ⟨c.node, pindex, c.view⟩ fun vtxundo loaded => fits pindex c.view vtxundo found loaded
    cases result : disconnectBlock env.toConnectEnv (blocks hash) ⟨c.node, pindex, c.view⟩ with
    | error failure s => simp [result] at undone
    | ok clean s =>
      rw [result] at effect
      cases clean with
      | false => exact effect
      | true =>
        simp only
        split <;> exact effect
  · cases undone

theorem StakeInvariant.disconnect (invariant : StakeInvariant blocks params c cover)
    (orderly : Orderly blocks params c (.tip (.disconnect env))) :
    StakeInvariant blocks params (tipStep c (.disconnect env))
      (coverStep params c cover (.tip (.disconnect env))) := by
  have sound := invariant.sound
  have index : (tipStep c (.disconnect env)).node.mapBlockIndex = c.node.mapBlockIndex :=
    disconnectTip_index rfl
  have genesis : ∀ pindex, (tipStep c (.disconnect env)).node.mapBlockIndex.lookup
      params.hashGenesisBlock = some pindex → pindex.pprev = none := by
    rw [index]
    exact invariant.genesis
  show StakeInvariant blocks params _
    (if undoesTip env c then cutAbove (c.node.chainActive.height - 1) cover else cover)
  cases undone : undoesTip env c with
  | false =>
    obtain ⟨spends, chain⟩ := disconnectTip_of_not_undoesTip orderly undone
    have chain : (tipStep c (.disconnect env)).node.chainActive = c.node.chainActive := chain
    have spends : (tipStep c (.disconnect env)).node.mapStakeSpent = c.node.mapStakeSpent := spends
    refine ⟨sound.step _, genesis, ?_, ?_, ?_⟩
    · rw [chain]
      exact invariant.unique
    · rw [chain, spends]
      exact invariant.holds
    · rw [chain]
      exact invariant.below
  | true =>
    obtain ⟨hash, tip, erased, chain⟩ := disconnectTip_of_undoesTip sound orderly undone
    rw [CChain.tip_eq_getElem?] at tip
    have nonempty := (List.getElem?_eq_some_iff.mp tip).1
    have top : ((c.node.chainActive.vChain.length - 1 : Nat) : Int) = c.node.chainActive.height := by
      unfold CChain.height
      omega
    have holds : HoldsSpends blocks c.node.chainActive
        (tipStep c (.disconnect env)).node.mapStakeSpent
        (cutAbove (c.node.chainActive.height - 1) cover) := by
      rw [← top]
      exact invariant.holds.disconnect (fun h covered => by
        have := invariant.below h covered
        omega) invariant.unique tip erased
    rw [if_pos rfl]
    rcases chain with chain | chain
    · have chain : (tipStep c (.disconnect env)).node.chainActive = c.node.chainActive := chain
      refine ⟨sound.step _, genesis, ?_, ?_, ?_⟩
      · rw [chain]
        exact invariant.unique
      · rw [chain]
        exact holds
      · rw [chain]
        exact fun h covered => invariant.below h covered.1
    have chain : (tipStep c (.disconnect env)).node.chainActive =
        ⟨c.node.chainActive.vChain.dropLast⟩ := chain
    refine ⟨sound.step _, genesis, ?_, ?_, ?_⟩
    · rw [chain]
      intro out first second atFirst atSecond
      exact invariant.unique out _ _ (spentAt_dropLast.mp atFirst).1 (spentAt_dropLast.mp atSecond).1
    · rw [chain]
      refine holds.of_same fun out h covered => ?_
      rw [spentAt_dropLast]
      exact ⟨And.left, fun at' => ⟨at', covered.2⟩⟩
    · rw [chain]
      intro h covered
      have := covered.2
      unfold CChain.height at *
      rw [List.length_dropLast]
      omega

end Disconnect

section Verify

variable {blocks : UInt256 → CBlock} {params : CChainParams} {c : ChainState}
variable {cover : Int → Prop} {env : VerifyEnv} {v : VerifyState} {coinsview : CoinsView}
variable {nCheckLevel nCheckDepth : Int}

/-- The blocks above height `k` are disconnected on the view. -/
structure Unwound (blocks : UInt256 → CBlock) (c : ChainState) (cover : Int → Prop)
    (v : VerifyState) (k : Nat) : Prop where
  mapBlockIndex : v.node.mapBlockIndex = c.node.mapBlockIndex
  chainActive : v.node.chainActive = c.node.chainActive
  undoFiles : v.node.undoFiles = c.node.undoFiles
  pindexState : c.node.chainActive.vChain[k]? = some v.pindexState
  pindex : v.pindex = none
  holds : HoldsSpends blocks c.node.chainActive v.node.mapStakeSpent (cutAbove k cover)

/-- The blocks above height `k` were disconnected, and those up to `j` are connected again. -/
structure Rewound (blocks : UInt256 → CBlock) (params : CChainParams) (c : ChainState)
    (cover : Int → Prop) (v : VerifyState) (k j : Nat) : Prop where
  tree : c.node.mapBlockIndex.SameTree v.node.mapBlockIndex
  chainActive : v.node.chainActive = c.node.chainActive
  order : k ≤ j
  pindexState : c.node.chainActive.vChain[k]? = some v.pindexState
  pindex : c.node.chainActive.vChain[j]? = some (v.pindex.getD v.pindexState)
  holds : HoldsSpends blocks c.node.chainActive v.node.mapStakeSpent
    (spanTo params.maxReorganizationDepth k j (cutAbove k cover))

theorem Unwound.rewound {k : Nat} (unwound : Unwound blocks c cover v k) :
    Rewound blocks params c cover v k k where
  tree := by
    rw [unwound.mapBlockIndex]
    exact BlockMap.SameTree.refl _
  chainActive := unwound.chainActive
  order := le_refl k
  pindexState := unwound.pindexState
  pindex := by
    rw [unwound.pindex]
    exact unwound.pindexState
  holds := unwound.holds.of_cover fun h => by rw [spanTo, if_neg (Int.lt_irrefl _)]

section

variable (invariant : StakeInvariant blocks params c cover)
include invariant

section

variable (orderly : Orderly blocks params c (.verify env coinsview nCheckLevel nCheckDepth))
include orderly

/-- `DisconnectBlock` on the view takes the highest block of the cover away. -/
theorem Unwound.disconnect {k : Nat} (unwound : Unwound blocks c cover v k) {pindex : CBlockIndex}
    (found : v.node.mapBlockIndex.lookup v.pindexState = some pindex) {hashPrev : UInt256}
    (prev : pindex.pprev = some hashPrev) {block : CBlock}
    (read : readBlockFromDisk (env.tipEnv v.pindexState) v.pindexState = some block) :
    ∃ k, Unwound blocks c cover
      (stateOf (verifyDisconnect env v.pindexState pindex block hashPrev v)) k := by
  have sound := invariant.sound
  have here := unwound.pindexState
  rw [unwound.mapBlockIndex] at found
  obtain ⟨-, whole⟩ := orderly _ (List.mem_of_getElem? here)
  obtain ⟨rfl, fits⟩ := whole block read
  have sameUndo : loadUndo (env.tipEnv v.pindexState).toConnectEnv (blocks v.pindexState)
      ⟨v.node, pindex, v.coins⟩ = loadUndo (env.tipEnv v.pindexState).toConnectEnv
        (blocks v.pindexState) ⟨c.node, pindex, v.coins⟩ := by
    unfold loadUndo
    rw [unwound.undoFiles]
  have effect := disconnectBlock_mapStakeSpent (env.tipEnv v.pindexState).toConnectEnv
    (blocks v.pindexState) ⟨v.node, pindex, v.coins⟩
    fun vtxundo loaded => fits pindex v.coins vtxundo found (sameUndo.symm.trans loaded)
  have same := keeps_disconnectBlock (env.tipEnv v.pindexState).toConnectEnv
    (blocks v.pindexState) ⟨v.node, pindex, v.coins⟩
  unfold verifyDisconnect
  cases result : disconnectBlock (env.tipEnv v.pindexState).toConnectEnv
      (blocks v.pindexState) ⟨v.node, pindex, v.coins⟩ with
  | error failure s =>
    rw [result] at effect same
    refine ⟨k, same.mapBlockIndex.trans unwound.mapBlockIndex,
      same.chainActive.trans unwound.chainActive, same.undoFiles.trans unwound.undoFiles,
      unwound.pindexState, unwound.pindex, ?_⟩
    have effect : s.node.mapStakeSpent = v.node.mapStakeSpent := effect
    show HoldsSpends _ _ s.node.mapStakeSpent _
    rw [effect]
    exact unwound.holds
  | ok fClean s =>
    rw [result] at effect same
    obtain ⟨pindex', found', height, prev'⟩ := sound.linked.entry here
    obtain rfl := Option.some.inj (found.symm.trans found')
    have positive : k ≠ 0 := by
      rintro rfl
      rw [prev] at prev'
      cases prev'
    rw [prev, if_neg positive] at prev'
    refine ⟨k - 1, same.mapBlockIndex.trans unwound.mapBlockIndex,
      same.chainActive.trans unwound.chainActive, same.undoFiles.trans unwound.undoFiles,
      prev'.symm, unwound.pindex, ?_⟩
    have below : ∀ h, cutAbove k cover h → h ≤ k := fun h covered => covered.2
    refine (unwound.holds.disconnect below invariant.unique here effect).of_cover fun h => ?_
    have top : ((k - 1 : Nat) : Int) = k - 1 := by omega
    rw [top, cutAbove_succ]

theorem Unwound.verifyBlock {k : Nat} (unwound : Unwound blocks c cover v k) {level : Nat}
    {hash hashPrev : UInt256} {pindex : CBlockIndex}
    (found : v.node.mapBlockIndex.lookup hash = some pindex) (prev : pindex.pprev = some hashPrev) :
    ∃ k, Unwound blocks c cover (stateOf (verifyBlock env level hash pindex hashPrev v)) k := by
  unfold Esbcoin.verifyBlock
  split
  · exact ⟨k, unwound⟩
  rename_i block read
  simp only
  split
  · exact ⟨k, unwound⟩
  split
  · exact ⟨k, unwound⟩
  split
  · rename_i conditions
    simp only [Bool.and_eq_true, decide_eq_true_eq, beq_iff_eq] at conditions
    obtain rfl := conditions.1.2
    have disconnected := unwound.disconnect invariant orderly found prev read
    split
    · rename_i result
      rw [result] at disconnected
      exact disconnected
    · rename_i result
      rw [result] at disconnected
      exact disconnected
  · exact ⟨k, unwound⟩

/-- The loop backwards. -/
theorem Unwound.verifyBlocks {level : Nat} {depth : Int} (fuel : Nat) (start : Option UInt256)
    (v : VerifyState) (unwound : ∃ k, Unwound blocks c cover v k) :
    ∃ k, Unwound blocks c cover (stateOf (verifyBlocks env level depth fuel start v)) k := by
  induction fuel generalizing start v with
  | zero => exact unwound
  | succ fuel ih =>
    cases start with
    | none => exact unwound
    | some hash =>
      unfold Esbcoin.verifyBlocks
      split
      · exact unwound
      rename_i pindex found
      split
      · exact unwound
      rename_i hashPrev prev
      split
      · exact unwound
      obtain ⟨k, here⟩ := unwound
      have turn := @Unwound.verifyBlock _ _ _ _ _ _ _ _ _ invariant orderly k here level
        _ _ _ found prev
      split
      · rename_i result
        rw [result] at turn
        exact turn
      · rename_i result
        rw [result] at turn
        exact turn
      · rename_i result
        rw [result] at turn
        exact ih (some hashPrev) _ turn

end

end

/-- The heights of the blocks the loops have reached. -/
theorem Rewound.heightOf (sound : c.Sound) {k j : Nat}
    (rewound : Rewound blocks params c cover v k j) :
    v.node.heightOf v.pindexState = k ∧ v.node.heightOf (v.pindex.getD v.pindexState) = j := by
  have linked := sound.linked.of_sameTree rewound.tree
  constructor
  · obtain ⟨pindex, found, height, -⟩ := linked.entry rewound.pindexState
    rw [NodeState.heightOf, found, Option.map_some, Option.getD_some, height]
  · obtain ⟨pindex, found, height, -⟩ := linked.entry rewound.pindex
    rw [NodeState.heightOf, found, Option.map_some, Option.getD_some, height]

/-- `ConnectBlock` on the view adds the spends of the next block. -/
theorem Rewound.reconnectBlock (invariant : StakeInvariant blocks params c cover)
    (orderly : Orderly blocks params c (.verify env coinsview nCheckLevel nCheckDepth))
    {k j : Nat} (rewound : Rewound blocks params c cover v k j) {hash : UInt256}
    (last : v.pindex = some hash) :
    ∃ k j, Rewound blocks params c cover (stateOf (reconnectBlock env hash v)) k j := by
  have linked := invariant.sound.linked.of_sameTree rewound.tree
  have wellFormed := invariant.sound.wellFormed.of_sameTree rewound.tree
  have here := rewound.pindex
  rw [last, Option.getD_some] at here
  unfold Esbcoin.reconnectBlock
  split
  · exact ⟨k, j, rewound⟩
  rename_i pindexLast foundLast
  have heightLast := linked.nHeight_eq here foundLast
  split
  · exact ⟨k, j, rewound⟩
  rename_i hashNext next
  have next : c.node.chainActive.vChain[j + 1]? = some hashNext := by
    unfold CChain.next at next
    split at next
    · rw [CChain.atHeight, heightLast, if_neg (by omega), rewound.chainActive] at next
      exact next
    · cases next
  split
  · exact ⟨k, j, rewound⟩
  · exact ⟨k, j, rewound⟩
  rename_i pindex block found read
  obtain ⟨hparams, whole⟩ := orderly hashNext (List.mem_of_getElem? next)
  obtain ⟨rfl, -⟩ := whole block read
  obtain ⟨pindex', found', height, prev⟩ := linked.entry next
  obtain rfl := Option.some.inj (found.symm.trans found')
  have own := wellFormed.filed found
  have hashed : (blocks hashNext).getHash = hashNext :=
    @getHash_of_blockToConnect _ _ none _ read
  have notGenesis : hashNext ≠ params.hashGenesisBlock := by
    rintro rfl
    obtain ⟨pindex', found', place⟩ := rewound.tree.symm.lookup found
    have root := invariant.genesis pindex' found'
    simp only [CBlockIndex.place, Prod.mk.injEq] at place
    rw [place.2.1, prev, if_neg (Nat.succ_ne_zero j), Nat.add_sub_cancel, here] at root
    cases root
  obtain ⟨frame, effect⟩ := addsSpends_connectBlock (env.tipEnv hashNext).toConnectEnv
    (blocks hashNext) false (by rw [hashed, hparams]; exact notGenesis)
    ⟨v.node, pindex, v.coins⟩ (by simp [own])
  have filed : ConnectState.Filed ⟨v.node, pindex, v.coins⟩ := by
    intro key same
    obtain rfl := Option.some.inj (own.symm.trans same)
    exact found
  have tree := rewound.tree.trans (frame.sameTree filed)
  split
  · rename_i failure s result
    rw [result] at frame effect tree
    refine ⟨k, j, tree, frame.chainActive.trans rewound.chainActive, rewound.order,
      rewound.pindexState, rewound.pindex, ?_⟩
    have effect : s.node.mapStakeSpent = v.node.mapStakeSpent := effect
    show HoldsSpends _ _ s.node.mapStakeSpent _
    rw [effect]
    exact rewound.holds
  rename_i s result
  rw [result] at frame effect tree
  have effect : s.node.mapStakeSpent = addStakeSpent params (blocks hashNext)
      ((j + 1 : Nat) : Int) v.node.mapStakeSpent := by
    rw [← hparams, ← height]
    exact effect
  have order := rewound.order
  refine ⟨k, j + 1, tree, frame.chainActive.trans rewound.chainActive, by omega,
    rewound.pindexState, next, ?_⟩
  show HoldsSpends _ _ s.node.mapStakeSpent _
  rw [effect]
  have below : ∀ h, spanTo params.maxReorganizationDepth k j (cutAbove k cover) h →
      h < ((j + 1 : Nat) : Int) := by
    intro h covered
    have := spanTo_le (fun h covered => covered.2) (by omega) h covered
    omega
  refine (rewound.holds.connect below invariant.unique next).of_cover fun h => ?_
  have top : ((j + 1 : Nat) : Int) - 1 = j := by omega
  have top' : ((j + 1 : Nat) : Int) = j + 1 := by omega
  rw [top, top']
  exact spanTo_succ (by omega) h

/-- The loop that reconnects. -/
theorem Rewound.reconnectBlocks (invariant : StakeInvariant blocks params c cover)
    (orderly : Orderly blocks params c (.verify env coinsview nCheckLevel nCheckDepth))
    (fuel : Nat) (v : VerifyState) (rewound : ∃ k j, Rewound blocks params c cover v k j) :
    ∃ k j, Rewound blocks params c cover (stateOf (reconnectBlocks env fuel v)) k j := by
  induction fuel generalizing v with
  | zero => exact rewound
  | succ fuel ih =>
    unfold Esbcoin.reconnectBlocks
    split
    · exact rewound
    rename_i hash last
    split
    · exact rewound
    obtain ⟨k, j, here⟩ := rewound
    have turn := here.reconnectBlock invariant orderly last
    split
    · rename_i result
      rw [result] at turn
      exact turn
    · rename_i result
      rw [result] at turn
      exact ih _ turn

/-- `VerifyDB` behind its first checks. -/
theorem Unwound.verifyFrom (invariant : StakeInvariant blocks params c cover)
    (orderly : Orderly blocks params c (.verify env coinsview nCheckLevel nCheckDepth))
    (unwound : ∃ k, Unwound blocks c cover v k) (level : Nat) (depth : Int) :
    ∃ k j, Rewound blocks params c cover (stateOf (verifyFrom env level depth v)) k j := by
  have back := @Unwound.verifyBlocks _ _ _ _ _ _ _ _ invariant orderly level depth
    v.node.chainActive.vChain.length (some v.pindexState) v unwound
  unfold Esbcoin.verifyFrom
  simp only [bind, EStateM.bind, get, getThe, MonadStateOf.get, get_state]
  split
  · rename_i more v' result
    rw [result] at back
    obtain ⟨k, back⟩ := back
    have back : Unwound blocks c cover v' k := back
    have same : Rewound blocks params c cover v' k k := back.rewound
    cases more with
    | false => exact ⟨k, k, same⟩
    | true =>
      simp only [Bool.not_true, Bool.false_eq_true, ↓reduceIte, EStateM.bind, get_state]
      cases v'.failure with
      | true => exact ⟨k, k, same⟩
      | false =>
        simp only [Bool.false_eq_true, ↓reduceIte]
        split
        · -- `CBlockIndex* pindex = pindexState`, and the blocks above it.
          have start : ∃ k j, Rewound blocks params c cover
              { v' with pindex := some v'.pindexState } k j :=
            ⟨k, k, same.tree, same.chainActive, same.order, same.pindexState, same.pindexState,
              same.holds⟩
          have forward := Rewound.reconnectBlocks invariant orderly
            v.node.chainActive.vChain.length _ start
          simp only [modify, modifyGet, MonadStateOf.modifyGet, modifyGet_state, EStateM.bind]
          split
          · rename_i result
            rw [result] at forward
            exact forward
          · rename_i result
            rw [result] at forward
            exact forward
        · exact ⟨k, k, same⟩
  · rename_i result
    rw [result] at back
    obtain ⟨k, back⟩ := back
    exact ⟨k, k, back.rewound⟩

/-- The invariant at the end of the loops. -/
theorem Rewound.invariant (invariant : StakeInvariant blocks params c cover) {k j : Nat}
    (rewound : Rewound blocks params c cover v k j) :
    StakeInvariant blocks params { c with node := v.node }
      (spanTo params.maxReorganizationDepth (v.node.heightOf v.pindexState)
        ((v.pindex.map v.node.heightOf).getD (v.node.heightOf v.pindexState))
        (cutAbove (v.node.heightOf v.pindexState) cover)) := by
  obtain ⟨first, last⟩ := rewound.heightOf invariant.sound
  have last : (v.pindex.map v.node.heightOf).getD k = j := by
    rw [← last, ← first]
    cases v.pindex <;> rfl
  rw [first, last]
  have linked : v.node.chainActive.Linked c.node.mapBlockIndex := by
    rw [rewound.chainActive]
    exact invariant.sound.linked
  refine ⟨invariant.sound.of_sameTree rewound.tree linked, ?_, ?_, ?_, ?_⟩
  · intro pindex found
    obtain ⟨pindex', found', place⟩ := rewound.tree.symm.lookup found
    exact (congrArg (fun place => place.2.1) place).symm.trans (invariant.genesis pindex' found')
  · show UniqueSpends blocks v.node.chainActive
    rw [rewound.chainActive]
    exact invariant.unique
  · show HoldsSpends blocks v.node.chainActive _ _
    rw [rewound.chainActive]
    exact rewound.holds
  · show ∀ h, _ → h ≤ v.node.chainActive.height
    rw [rewound.chainActive]
    intro h covered
    have order := rewound.order
    have atMost := spanTo_le (fun h covered => covered.2) (by omega) h covered
    have := (List.getElem?_eq_some_iff.mp rewound.pindex).1
    unfold CChain.height
    omega

/-- The state and the cover after `VerifyDB`. -/
theorem StakeInvariant.verify (invariant : StakeInvariant blocks params c cover)
    (orderly : Orderly blocks params c (.verify env coinsview nCheckLevel nCheckDepth)) :
    StakeInvariant blocks params (nodeStep c (.verify env coinsview nCheckLevel nCheckDepth))
      (coverStep params c cover (.verify env coinsview nCheckLevel nCheckDepth)) := by
  cases verified : verifyDB env coinsview nCheckLevel nCheckDepth c.node with
  | none =>
    simp only [nodeStep, coverStep, verified]
    exact invariant
  | some result =>
    simp only [nodeStep, coverStep, verified]
    unfold verifyDB at verified
    split at verified
    · cases verified
    rename_i hash tip
    split at verified
    · cases verified
    obtain rfl := Option.some.inj verified
    rw [CChain.tip_eq_getElem?] at tip
    have start : Unwound blocks c cover { node := c.node, coins := coinsview, pindexState := hash }
        (c.node.chainActive.vChain.length - 1) := by
      refine ⟨rfl, rfl, rfl, tip, rfl, invariant.holds.of_cover fun h => ?_⟩
      refine ⟨And.left, fun covered => ⟨covered, ?_⟩⟩
      have := invariant.below h covered
      unfold CChain.height at this
      omega
    obtain ⟨k, j, rewound⟩ := Unwound.verifyFrom invariant orderly ⟨_, start⟩
      (max 0 (min 4 nCheckLevel)).toNat
      (min (if nCheckDepth ≤ 0 then 1000000000 else nCheckDepth) c.node.chainActive.height)
    exact rewound.invariant invariant

end Verify

/-! ## Runs -/

section Runs

variable {blocks : UInt256 → CBlock} {params : CChainParams}

theorem StakeInvariant.step {c : ChainState} {cover : Int → Prop}
    (invariant : StakeInvariant blocks params c cover)
    (noSpends : (blocks params.hashGenesisBlock).spentOutPoints = []) {a : NodeAction}
    (orderly : Orderly blocks params c a) :
    StakeInvariant blocks params (nodeStep c a) (coverStep params c cover a) := by
  cases a with
  | verify env coinsview nCheckLevel nCheckDepth => exact invariant.verify orderly
  | tip a =>
    cases a with
    | disconnect env => exact invariant.disconnect orderly
    | connect env hash pblock fAlreadyChecked =>
      obtain ⟨-, flushes, -⟩ := id orderly
      simp only [nodeStep, tipStep, coverStep]
      cases result : connectTip env hash (handedOver hash pblock) fAlreadyChecked c with
      | ok u c' => exact invariant.connect_ok noSpends orderly result
      | error failure c' => exact invariant.connect_error flushes result

/-- A `ConnectTip` that has moved the tip has succeeded. -/
theorem coverStep_of_raised {c : ChainState} {cover : Int → Prop} {env : TipEnv} {hash : UInt256}
    {pblock : Option CBlock} {fAlreadyChecked : Bool} (sound : c.Sound)
    (raised : (tipStep c (.connect env hash pblock fAlreadyChecked)).node.chainActive.height ≠
      c.node.chainActive.height) :
    coverStep params c cover (.tip (.connect env hash pblock fAlreadyChecked)) =
      spanTo params.maxReorganizationDepth c.node.chainActive.height
        (c.node.chainActive.height + 1) cover := by
  unfold coverStep
  simp only [tipStep] at raised
  cases result : connectTip env hash (handedOver hash pblock) fAlreadyChecked c with
  | ok u c' => simp only [result]
  | error failure c' =>
    rw [result, stateOf_error, connectTip_error sound result] at raised
    exact absurd rfl raised

/-- A start: nothing is spent twice and the map is empty. -/
structure Started (blocks : UInt256 → CBlock) (params : CChainParams) (c : ChainState) : Prop where
  sound : c.Sound
  genesis : ∀ pindex, c.node.mapBlockIndex.lookup params.hashGenesisBlock = some pindex →
    pindex.pprev = none
  noSpends : (blocks params.hashGenesisBlock).spentOutPoints = []
  unique : UniqueSpends blocks c.node.chainActive
  empty : c.node.mapStakeSpent = ∅

/-- The cover behind a run. -/
def coverAfter (params : CChainParams) (start : ChainState) (actions : List NodeAction) :
    Int → Prop :=
  (run (trackStep params) (start, fun _ => False) actions).2

theorem run_trackStep (s : ChainState × (Int → Prop)) (actions : List NodeAction) :
    (run (trackStep params) s actions).1 = run nodeStep s.1 actions := by
  induction actions generalizing s with
  | nil => rfl
  | cons a actions ih => exact ih (trackStep params s a)

theorem coverAfter_append (start : ChainState) (first : List NodeAction) (a : NodeAction) :
    coverAfter params start (first ++ [a]) =
      coverStep params (run nodeStep start first) (coverAfter params start first) a := by
  unfold coverAfter
  rw [run_append]
  show coverStep params (run (trackStep params) _ first).1 _ a = _
  rw [run_trackStep]

/-- What the map holds after an orderly run. -/
theorem Started.invariant {start : ChainState} (started : Started blocks params start)
    {actions : List NodeAction}
    (orderly : AllSteps nodeStep (Orderly blocks params) start actions) :
    StakeInvariant blocks params (run nodeStep start actions) (coverAfter params start actions) := by
  refine AllSteps.history (I := fun actions c =>
    StakeInvariant blocks params c (coverAfter params start actions)) ?_ ?_ orderly
  · refine ⟨started.sound, started.genesis, started.unique, fun out h => ?_, fun h covered => ?_⟩
    · rw [started.empty]
      constructor
      · intro found
        simp at found
      · exact fun covered => covered.2.elim
    · exact covered.elim
  · intro first a invariant good
    rw [coverAfter_append]
    exact invariant.step started.noSpends good

/-- `mapStakeSpent` holds exactly the spends by transactions other than coinbases of the active
chain, as far as they are at most `MaxReorganizationDepth` below the tip. -/
def HoldsRecentSpends (blocks : UInt256 → CBlock) (params : CChainParams) (c : ChainState) : Prop :=
  ∀ out nHeight, c.node.mapStakeSpent.lookup out = some nHeight ↔
    SpentAt blocks c.node.chainActive out nHeight ∧
      c.node.chainActive.height - params.maxReorganizationDepth ≤ nHeight

/-- Where the active chain spends anything, the cover has the heights that are at most
`MaxReorganizationDepth` below the tip. -/
def CoversRecent (blocks : UInt256 → CBlock) (params : CChainParams) (c : ChainState)
    (cover : Int → Prop) : Prop :=
  ∀ nHeight, (∃ out, SpentAt blocks c.node.chainActive out nHeight) →
    (cover nHeight ↔ c.node.chainActive.height - params.maxReorganizationDepth ≤ nHeight)

/-- In every state of an orderly run the map holds what it should exactly when the cover has the
recent heights. -/
theorem holdsRecentSpends_iff {start : ChainState} (started : Started blocks params start)
    {actions : List NodeAction}
    (orderly : AllSteps nodeStep (Orderly blocks params) start actions)
    {first : List NodeAction} (reached : first <+: actions) :
    HoldsRecentSpends blocks params (run nodeStep start first) ↔
      CoversRecent blocks params (run nodeStep start first) (coverAfter params start first) := by
  have holds := (started.invariant (orderly.restrict reached)).holds
  constructor
  · rintro exact' nHeight ⟨out, at'⟩
    have same := (holds out nHeight).symm.trans (exact' out nHeight)
    constructor
    · exact fun covered => (same.mp ⟨at', covered⟩).2
    · exact fun recent => (same.mpr ⟨at', recent⟩).2
  · intro covers out nHeight
    rw [holds]
    exact and_congr_right fun at' => covers nHeight ⟨out, at'⟩

end Runs

/-! ## A verification that forgets a spend -/

/-- The transactions at height `h`: a coinbase, which pays out 100 COIN at height 1, and at
height 17 the transaction that spends them. -/
def sampleVtx (h : Nat) : List CTransaction :=
  coinBaseAt h (if h = 1 then 100 * COIN else 0) ::
    if h = 17 then [⟨3000, 1, [{ prevout := ⟨2001, 0⟩ }], [⟨100 * COIN, [0x51]⟩], 0, []⟩] else []

def sampleBlocks (hash : UInt256) : CBlock := blockAt (hash.toNat - 1) (sampleVtx (hash.toNat - 1))

def connectFirst (n : Nat) : List NodeAction :=
  (List.range n).map fun h => .tip (connectAt h (sampleVtx h))

/-- `VerifyDB` of the last block at level 3. -/
def verifyLast : NodeAction :=
  .verify ⟨fun hash => { lenientEnv with
      params := regTestParams 1, blockFile := some (sampleBlocks hash), flushStateToDisk := true },
    fun _ => true, fun _ => false⟩ (run nodeStep headersOnly (connectFirst 18)).view 3 1

theorem sampleBlocks_eq {h : Nat} (small : h < 18) :
    sampleBlocks (BitVec.ofNat 256 (h + 1)) = blockAt h (sampleVtx h) := by
  have value : (BitVec.ofNat 256 (h + 1)).toNat - 1 = h := by
    rw [BitVec.toNat_ofNat, Nat.mod_eq_of_lt (by omega)]
    omega
  rw [sampleBlocks, value]

/-- Only the block at height 17 spends anything. -/
theorem spentOutPoints_sampleBlocks {hash : UInt256} {out : COutPoint}
    (member : out ∈ (sampleBlocks hash).spentOutPoints) : hash = 18 := by
  by_cases last : hash.toNat - 1 = 17
  · apply BitVec.eq_of_toNat_eq
    show hash.toNat = 18
    omega
  have none : (sampleBlocks hash).spentOutPoints = [] := by
    unfold sampleBlocks
    rw [sampleVtx, if_neg last]
    rfl
  rw [none] at member
  cases member

theorem headersOnly_started : Started sampleBlocks (regTestParams 1) headersOnly where
  sound := ⟨headersOnly_fromGenesis.wellFormed, CChain.Linked.nil⟩
  genesis := headersOnly_fromGenesis.genesis
  noSpends := by decide
  unique out first second atFirst _ := by
    obtain ⟨i, _, -, here, -⟩ := atFirst
    cases here
  empty := rfl

theorem orderly_connectAt {c : ChainState} {h : Nat} (small : h < 18)
    (fresh : (18 : UInt256) ∉ c.node.chainActive.vChain) :
    Orderly sampleBlocks (regTestParams 1) c (.tip (connectAt h (sampleVtx h))) := by
  refine ⟨rfl, rfl, fun block read => ?_⟩
  have handed : handedOver (BitVec.ofNat 256 (h + 1)) (some (blockAt h (sampleVtx h))) =
      some (blockAt h (sampleVtx h)) := by simp [handedOver, blockAt, CBlock.getHash]
  rw [handed] at read
  obtain rfl := Option.some.inj read
  refine ⟨(sampleBlocks_eq small).symm, ?_⟩
  rintro out - nHeight ⟨i, hash, -, here, member⟩
  obtain rfl := spentOutPoints_sampleBlocks member
  exact fresh (List.mem_of_getElem? here)

theorem connectFirst_orderly :
    AllSteps nodeStep (Orderly sampleBlocks (regTestParams 1)) headersOnly (connectFirst 18) := by
  have fresh : ∀ n < 18, (18 : UInt256) ∉
      (run nodeStep headersOnly (connectFirst n)).node.chainActive.vChain := by
    decide +kernel
  have main : ∀ n ≤ 18, AllSteps nodeStep (Orderly sampleBlocks (regTestParams 1)) headersOnly
      (connectFirst n) := by
    intro n
    induction n with
    | zero => exact fun _ => trivial
    | succ n ih =>
      intro small
      have next : connectFirst (n + 1) =
          connectFirst n ++ [.tip (connectAt n (sampleVtx n))] := by
        simp [connectFirst, List.range_succ]
      rw [next, allSteps_append]
      exact ⟨ih (by omega), orderly_connectAt (by omega) (fresh n (by omega)), trivial⟩
  exact main 18 le_rfl

/-- After the 18 blocks the map has the one spend. -/
theorem connectFirst_holdsRecentSpends :
    HoldsRecentSpends sampleBlocks (regTestParams 1) (run nodeStep headersOnly (connectFirst 18)) ∧
      (run nodeStep headersOnly (connectFirst 18)).node.mapStakeSpent.lookup ⟨2001, 0⟩ =
        some 17 := by
  refine ⟨(holdsRecentSpends_iff headersOnly_started connectFirst_orderly
    (List.prefix_refl _)).mpr ?_, by decide +kernel⟩
  rintro nHeight ⟨out, i, hash, rfl, here, member⟩
  obtain rfl := spentOutPoints_sampleBlocks member
  have place : (run nodeStep headersOnly (connectFirst 18)).node.chainActive.vChain[17]? =
      some 18 := by decide +kernel
  have linked := (headersOnly_started.invariant connectFirst_orderly).sound.linked
  obtain rfl : i = 17 := linked.index_unique here place
  have next : connectFirst 18 = connectFirst 17 ++ [.tip (connectAt 17 (sampleVtx 17))] := rfl
  have height : (run nodeStep headersOnly (connectFirst 18)).node.chainActive.height = 17 := by
    decide +kernel
  have before : (run nodeStep headersOnly (connectFirst 17)).node.chainActive.height = 16 := by
    decide +kernel
  rw [height, next, coverAfter_append]
  have sound := (headersOnly_started.invariant
    (@StepRun.AllSteps.restrict _ _ _ _ _ (connectFirst 17) _ connectFirst_orderly
      ⟨_, next.symm⟩)).sound
  have raised : (tipStep (run nodeStep headersOnly (connectFirst 17))
      (connectAt 17 (sampleVtx 17))).node.chainActive.height = 17 := by decide +kernel
  rw [connectAt, coverStep_of_raised sound (by rw [before]; exact raised.trans_ne (by decide)),
    before, spanTo, if_pos (by decide)]
  exact ⟨fun _ => by decide, fun _ => ⟨Or.inr ⟨by decide, by decide⟩, by decide⟩⟩

/-- Level 3 of `VerifyDB` takes the last block back on a view of its own, and its spend is
forgotten. -/
theorem verifyLast_forgets_spend :
    Started sampleBlocks (regTestParams 1) headersOnly ∧
      ¬ HoldsRecentSpends sampleBlocks (regTestParams 1)
        (run nodeStep headersOnly (connectFirst 18 ++ [verifyLast])) := by
  refine ⟨headersOnly_started, fun holds => ?_⟩
  have forgotten : (run nodeStep headersOnly (connectFirst 18 ++ [verifyLast])
      ).node.mapStakeSpent.lookup ⟨2001, 0⟩ = none := by decide +kernel
  have place : (run nodeStep headersOnly (connectFirst 18 ++ [verifyLast])
      ).node.chainActive.vChain[17]? = some 18 := by decide +kernel
  have height : (run nodeStep headersOnly (connectFirst 18 ++ [verifyLast])
      ).node.chainActive.height = 17 := by decide +kernel
  have kept := (holds ⟨2001, 0⟩ 17).mpr ⟨⟨17, 18, rfl, place, by decide⟩, by rw [height]; decide⟩
  rw [forgotten] at kept
  cases kept

end Esbcoin
