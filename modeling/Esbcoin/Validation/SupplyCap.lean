import Esbcoin.Validation.MoneySupply

/-!
# The maximum supply

`GetBlockValue` leaves room for the subsidy under `MaxMoneyOut` (`src/main.cpp:1735-1740`) as long
as the active chain is not above the reward update; above it neither the subsidy nor the dev fee
looks at the supply.
-/

namespace Esbcoin

open StateRel StepRun

/-- No block of the active chain has more than the maximum. -/
def SupplyWithinMax (params : CChainParams) (c : ChainState) : Prop :=
  ∀ hash ∈ c.node.chainActive.vChain, ∀ pindex, c.node.mapBlockIndex.lookup hash = some pindex →
    pindex.nMoneySupply ≤ params.maxMoneyOut

/-- The tip leaves room for the reward and the dev fee of a block above it, if these are not capped
any more. -/
def RoomForReward (params : CChainParams) (c : ChainState) : TipAction → Prop
  | .connect .. => c.node.chainActive.height > CONSENSUS_FORK_REWARD_UPDATE_BLOCK →
    ∀ tip, c.node.mapBlockIndex.deref c.node.chainActive.tip = some tip →
      tip.nMoneySupply + limitPastUpdate params tip.nHeight ≤ params.maxMoneyOut
  | .disconnect _ => True

/-- The move connects no block whose reward is not capped without room for it, and no
proof-of-work block whose transactions pay fees. -/
def LeavesRoom (params : CChainParams) (c : ChainState) (a : TipAction) : Prop :=
  NoPaidWork params c a ∧ RoomForReward params c a

/-- A node before it has a chain, with an empty supply recorded for the genesis block. -/
structure FreshNode (params : CChainParams) (c : ChainState) : Prop extends
    FromGenesis params c where
  nothing : ∀ pindex, c.node.mapBlockIndex.lookup params.hashGenesisBlock = some pindex →
    pindex.nMoneySupply = 0
  positive : 0 ≤ params.maxMoneyOut

/-- What holds throughout a run from there. -/
structure CapInvariant (params : CChainParams) (c : ChainState) : Prop where
  supply : SupplyInvariant params c
  nothing : ∀ pindex, c.node.mapBlockIndex.lookup params.hashGenesisBlock = some pindex →
    pindex.nMoneySupply = 0
  positive : 0 ≤ params.maxMoneyOut
  within : SupplyWithinMax params c

variable {params : CChainParams} {c c' : ChainState}

/-- The capped subsidy fits into the maximum. -/
theorem cappedSubsidy_room {nMoneySupply : Int} (within : nMoneySupply ≤ params.maxMoneyOut)
    (nSubsidy : Int) : nMoneySupply + cappedSubsidy params nSubsidy nMoneySupply ≤
      params.maxMoneyOut := by
  simp only [cappedSubsidy]
  split_ifs <;> omega

/-- The limit of the reward fits into the maximum. -/
theorem mintLimit_room {tip : CBlockIndex} {limit : Int} {a : TipAction}
    (room : RoomForReward params c a) (connects : ∀ env, a ≠ .disconnect env)
    (htip : c.node.mapBlockIndex.deref c.node.chainActive.tip = some tip)
    (within : tip.nMoneySupply ≤ params.maxMoneyOut)
    (hlimit : mintLimit params c.node.mapBlockIndex c.node.chainActive tip.nHeight = some limit) :
    tip.nMoneySupply + limit ≤ params.maxMoneyOut := by
  by_cases past : c.node.chainActive.height > CONSENSUS_FORK_REWARD_UPDATE_BLOCK
  · rw [mintLimit_of_past past, Option.some.injEq] at hlimit
    subst hlimit
    cases a with
    | connect => exact room past tip htip
    | disconnect env => exact absurd rfl (connects env)
  · rw [mintLimit_of_not_past past htip, Option.some.injEq] at hlimit
    subst hlimit
    exact cappedSubsidy_room within _

theorem sameIndex_connectBlock_genesis (env : ConnectEnv) (block : CBlock)
    (fJustCheck fAlreadyChecked : Bool) (genesis : block.getHash = env.params.hashGenesisBlock) :
    Keeps ConnectState.SameIndex (connectBlock env block fJustCheck fAlreadyChecked) := by
  have trans : ∀ a b c, ConnectState.SameIndex a b → ConnectState.SameIndex b c →
      ConnectState.SameIndex a c := fun _ _ _ => ConnectState.SameIndex.trans
  have checks {α : Type} (check : ConnectState → Except Failure α) :
      Keeps ConnectState.SameIndex (checking check) := Keeps.of_same ConnectState.SameIndex.refl
    fun s => by
      unfold checking
      split <;> rfl
  refine Keeps.bind trans (checks _) fun _ => Keeps.bind trans (checks _) fun _ => ?_
  rw [if_pos genesis]
  intro s
  unfold setBestBlock
  split
  · exact ConnectState.SameIndex.refl s
  · exact ⟨rfl, rfl, rfl, rfl⟩

/-- The genesis block gets no supply. -/
theorem connectTip_genesis (env : TipEnv) (pblock : Option CBlock) (fAlreadyChecked : Bool)
    (c : ChainState) :
    let genesis := env.params.hashGenesisBlock
    ((stateOf (connectTip env genesis (handedOver genesis pblock) fAlreadyChecked c)
      ).node.mapBlockIndex.lookup genesis).map CBlockIndex.nMoneySupply =
      (c.node.mapBlockIndex.lookup genesis).map CBlockIndex.nMoneySupply := by
  intro genesis
  unfold connectTip
  split
  · rfl
  rename_i pindex found
  split
  · rfl
  split
  · rfl
  rename_i block read
  have same := (sameIndex_connectBlock_genesis env.toConnectEnv block false
    ((handedOver env.params.hashGenesisBlock pblock).isSome && fAlreadyChecked)
    (getHash_of_blockToConnect read) ⟨c.node, pindex, c.view⟩).mapBlockIndex
  split
  · rename_i failure s fails
    rw [fails, stateOf_error] at same
    show ((invalidBlockFound failure _ s.node).mapBlockIndex.lookup _).map _ = _
    unfold invalidBlockFound
    split
    · split
      · rw [same]
      · rw [AssocMap.lookup_modify, if_pos rfl, same, Option.map_map]
        rfl
    · rw [same]
  · rename_i s connects
    rw [connects, stateOf_ok] at same
    split
    · rw [stateOf_error, same]
    · rw [stateOf_ok, same]

theorem FreshNode.invariant (fresh : FreshNode params c) : CapInvariant params c where
  supply := fresh.toFromGenesis.invariant
  nothing := fresh.nothing
  positive := fresh.positive
  within hash onChain := by
    rw [fresh.noChain] at onChain
    cases onChain

/-- The supply of the genesis block stays empty. -/
theorem CapInvariant.nothing_step (invariant : CapInvariant params c) {a : TipAction}
    (h : LeavesRoom params c a) {pindex : CBlockIndex}
    (found : (tipStep c a).node.mapBlockIndex.lookup params.hashGenesisBlock = some pindex) :
    pindex.nMoneySupply = 0 := by
  have supply : ((tipStep c a).node.mapBlockIndex.lookup params.hashGenesisBlock).map
      CBlockIndex.nMoneySupply =
        (c.node.mapBlockIndex.lookup params.hashGenesisBlock).map CBlockIndex.nMoneySupply := by
    cases a with
    | disconnect env =>
      rw [show (tipStep c (.disconnect env)).node.mapBlockIndex = _ from disconnectTip_index rfl]
    | connect env hash pblock fAlreadyChecked =>
      have hparams : env.params = params := h.1.1
      subst hparams
      by_cases genesis : hash = env.params.hashGenesisBlock
      · subst genesis
        exact connectTip_genesis env pblock fAlreadyChecked c
      · have same : stateOf (connectTip env hash (handedOver hash pblock) fAlreadyChecked c) =
            tipStep c (.connect env hash pblock fAlreadyChecked) := rfl
        rw [(connectTip_index invariant.supply.sound same).2 _ (Ne.symm genesis)]
  rw [found, Option.map_some] at supply
  obtain ⟨before, foundBefore, same⟩ := Option.map_eq_some_iff.mp supply.symm
  rw [← same]
  exact invariant.nothing before foundBefore

theorem CapInvariant.connected (invariant : CapInvariant params c) {env : TipEnv} {hash : UInt256}
    {pblock : Option CBlock} {fAlreadyChecked : Bool}
    (h : LeavesRoom params c (.connect env hash pblock fAlreadyChecked))
    (connects : connectTip env hash (handedOver hash pblock) fAlreadyChecked c = .ok () c')
    {pindex : CBlockIndex} (found : c'.node.mapBlockIndex.lookup hash = some pindex) :
    pindex.nMoneySupply ≤ params.maxMoneyOut := by
  by_cases genesis : hash = params.hashGenesisBlock
  · subst genesis
    have stepped : (tipStep c (.connect env params.hashGenesisBlock pblock
        fAlreadyChecked)).node.mapBlockIndex.lookup params.hashGenesisBlock = some pindex := by
      show (stateOf (connectTip _ _ _ _ _)).node.mapBlockIndex.lookup _ = _
      rw [connects]
      exact found
    rw [invariant.nothing_step h stepped]
    exact invariant.positive
  obtain ⟨_, pindex', parent, _, limit, -, found', hparent, -, -, hlimit, raise, below⟩ :=
    raisesWithinLimit_of_noPaidWork invariant.supply h.1 c' connects genesis
  obtain rfl := Option.some.inj (found'.symm.trans found)
  have onChain : ∀ tip, c.node.chainActive.tip = some tip → tip ∈ c.node.chainActive.vChain :=
    fun tip last => List.mem_of_getLast? last
  have within : parent.nMoneySupply ≤ params.maxMoneyOut := by
    cases tip : c.node.chainActive.tip with
    | none =>
      rw [tip] at hparent
      cases hparent
    | some hashPrev =>
      rw [tip] at hparent
      exact invariant.within hashPrev (onChain hashPrev tip) parent hparent
  have room := mintLimit_room h.2 (fun _ => nofun) hparent within hlimit
  omega

theorem CapInvariant.step (invariant : CapInvariant params c) {a : TipAction}
    (h : LeavesRoom params c a) : CapInvariant params (tipStep c a) := by
  have sound := invariant.supply.sound
  refine ⟨invariant.supply.step h.1, fun pindex found => invariant.nothing_step h found,
    invariant.positive, ?_⟩
  intro key onChain pindex found
  cases a with
  | disconnect env =>
    rw [show (tipStep c (.disconnect env)).node.mapBlockIndex = _ from disconnectTip_index rfl]
      at found
    refine invariant.within key ?_ pindex found
    change key ∈ (stateOf (disconnectTip env c)).node.chainActive.vChain at onChain
    cases result : disconnectTip env c with
    | error failure c' =>
      rw [result, stateOf_error, disconnectTip_error result] at onChain
      exact onChain
    | ok _ c' =>
      rw [result, stateOf_ok] at onChain
      obtain ⟨_, _, _, _, -, -, -, -, -, rfl⟩ := disconnectTip_ok sound result
      exact List.dropLast_subset _ onChain
  | connect env hash pblock fAlreadyChecked =>
    have kept : ∀ key ∈ c.node.chainActive.vChain,
        (stateOf (connectTip env hash (handedOver hash pblock) fAlreadyChecked c)
          ).node.mapBlockIndex.lookup key = c.node.mapBlockIndex.lookup key :=
      fun key onChain => connectTip_onChain sound onChain
    change key ∈ (stateOf (connectTip _ _ _ _ _)).node.chainActive.vChain at onChain
    change (stateOf (connectTip _ _ _ _ _)).node.mapBlockIndex.lookup key = _ at found
    cases result : connectTip env hash (handedOver hash pblock) fAlreadyChecked c with
    | error failure c' =>
      rw [result] at onChain found kept
      rw [stateOf_error, connectTip_error sound result] at onChain
      exact invariant.within key onChain pindex ((kept key onChain).symm.trans found)
    | ok _ c' =>
      rw [result] at onChain found kept
      have chain : c'.node.chainActive.vChain = c.node.chainActive.vChain ++ [hash] := by
        obtain ⟨_, _, _, -, -, -, -, rfl⟩ := connectTip_ok sound result
        rfl
      rw [stateOf_ok, chain] at onChain
      rcases List.mem_append.mp onChain with old | new
      · exact invariant.within key old pindex ((kept key old).symm.trans found)
      · obtain rfl := List.mem_singleton.mp new
        exact invariant.connected h result found

/-- In every run from genesis that connects no block without room for an uncapped reward, and no
proof-of-work block with paid fees, no block of the active chain has a supply above the maximum. -/
theorem supply_within_max {start : ChainState} (fresh : FreshNode params start)
    {actions : List TipAction} (h : AllSteps tipStep (LeavesRoom params) start actions) :
    SupplyWithinMax params (run tipStep start actions) :=
  (h.invariant (fun _ _ invariant hstep => invariant.step hstep) fresh.invariant).within

/-! ## Fees that are taken twice -/

def manyHeaders : ChainState where
  node :=
    { mapBlockIndex :=
        heightsMap (fun h => { straightIndex h with nMoneySupply := 0 }) 162 (by decide)
      chainActive := ⟨[]⟩ }
  view := ⟨FlatCoins.empty, 0⟩

theorem manyHeaders_fresh : FreshNode (regTestParams 1) manyHeaders where
  wellFormed := heightsMap_wellFormed (fun _ => rfl) (by decide)
  noChain := rfl
  genesis pindex found := by
    rw [heightsMap_lookup_one (by decide) found]
    rfl
  nothing pindex found := by
    obtain ⟨h, below, hash, rfl⟩ := (heightsMap_lookup_iff (by decide)).mp found
    rfl
  positive := by decide

/-- The coinbase of 16 blocks below is spent, with all of it but `nValue` as a fee. -/
def feeSpend (h : Nat) (nValue : Int) : CTransaction :=
  ⟨BitVec.ofNat 256 (3000 + h), 1, [{ prevout := ⟨BitVec.ofNat 256 (2000 + (h - 16)), 0⟩ }],
    [⟨nValue, [0x51]⟩], 0, []⟩

/-- The first block takes the premine, and every sixteenth block from there on twice the fee that
it holds, which is all there is. -/
def doublingBlock (h : Nat) : TipAction :=
  if h = 1 then connectAt h [coinBaseAt h (1000000 * COIN)]
  else if h = 161 then connectAt h [coinBaseAt h (984000000 * COIN), feeSpend h (20000000 * COIN)]
  else if h % 16 = 1 then
    connectAt h [coinBaseAt h (1000000 * COIN * 2 ^ (h / 16)), feeSpend h 0]
  else connectAt h [coinBaseAt h 0]

/-- The first blocks keep to the maximum. -/
theorem supply_within_max_sample : SupplyWithinMax (regTestParams 1)
    (run tipStep headersOnly (coinBaseBlocks 2)) := by
  have fresh : FreshNode (regTestParams 1) headersOnly :=
    { headersOnly_fromGenesis with
      nothing := fun pindex found => by
        obtain ⟨h, below, hash, rfl⟩ := (heightsMap_lookup_iff (by decide)).mp found
        rfl
      positive := by decide }
  refine supply_within_max fresh ⟨⟨noPaidWork_connectAt _ 0 _, ?_⟩,
    ⟨noPaidWork_connectAt _ 1 _, ?_⟩, trivial⟩
  · exact fun past => absurd past (by decide)
  · exact fun past => absurd past (by decide +kernel)

/-- The supply of the block at height 161 is 1004000000 COIN. -/
theorem doublingBlocks_exceed_max : FreshNode (regTestParams 1) manyHeaders ∧
    ¬ SupplyWithinMax (regTestParams 1)
      (run tipStep manyHeaders ((List.range 162).map doublingBlock)) := by
  refine ⟨manyHeaders_fresh, fun within => ?_⟩
  have supply : ((run tipStep manyHeaders ((List.range 162).map doublingBlock)
      ).node.mapBlockIndex.lookup 162).map CBlockIndex.nMoneySupply = some (1004000000 * COIN) ∧
      162 ∈ (run tipStep manyHeaders ((List.range 162).map doublingBlock)
        ).node.chainActive.vChain := by decide +kernel
  obtain ⟨pindex, found, value⟩ := Option.map_eq_some_iff.mp supply.1
  have below := within 162 supply.2 pindex found
  rw [value] at below
  exact absurd below (by decide)

end Esbcoin
