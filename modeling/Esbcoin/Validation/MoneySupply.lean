import Esbcoin.Validation.RoundTrip
import Esbcoin.Validation.Tip

/-!
# What a block adds to the money supply

The sums of `ConnectBlock` over a block's transactions (`src/main.cpp:2239-2313`) are the totals of
the block in the view it is connected to. The check of the minted amount compares the net mint, from
which the fees are gone already, with a limit to which a proof-of-work block's fees are added.
-/

namespace Esbcoin

open StateRel StepRun List

/-- What goes into and comes out of the transactions of a block, and the fees they pay. -/
structure BlockTotals where
  valueIn : Int
  valueOut : Int
  fees : Int

/-- The fee of a transaction with these values: coinbase and coinstake pay none. -/
def feeOfValues (tx : CTransaction) (valueIn valueOut : Int) : Int :=
  if tx.isCoinBase || tx.isCoinStake then 0 else valueIn - valueOut

/-- The sums of a block in the view it is connected to. -/
def blockTotals (nHeight : Int) (view : FlatCoins) : List CTransaction → Option BlockTotals
  | [] => some ⟨0, 0, 0⟩
  | tx :: vtx =>
    match view.getValueIn tx, tx.getValueOut, updateCoins tx view nHeight with
    | some valueIn, some valueOut, some (view', _) =>
      (blockTotals nHeight view' vtx).map fun rest =>
        ⟨valueIn + rest.valueIn, valueOut + rest.valueOut,
          feeOfValues tx valueIn valueOut + rest.fees⟩
    | _, _, _ => none

/-! ## The sums of ConnectBlock -/

variable {env : ConnectEnv} {fScriptChecks : Bool} {tally' tally : BlockTally} {s s' : ConnectState}


theorem connectInputs_tally {mapBlockIndex : BlockMap} {view : CoinsView} {tx : CTransaction}
    {valueOut : Int} (h : connectInputs env mapBlockIndex view tx fScriptChecks tally = .ok tally')
    (out : tx.getValueOut = some valueOut) :
    ∃ valueIn, view.coins.getValueIn tx = some valueIn ∧
      tally'.nValueIn = tally.nValueIn + valueIn ∧ tally'.nValueOut = tally.nValueOut ∧
        tally'.nFees = tally.nFees + feeOfValues tx valueIn valueOut := by
  unfold connectInputs at h
  by_cases coinBase : tx.isCoinBase = true
  · rw [if_pos coinBase] at h
    obtain rfl := Except.ok.inj h
    exact ⟨0, by simp [FlatCoins.getValueIn, coinBase], by simp, rfl,
      by simp [feeOfValues, coinBase]⟩
  rw [if_neg coinBase] at h
  simp only [bind_ok, orCrash_eq_ok, Except.ok.injEq] at h
  obtain ⟨-, -, -, -, nFee, fee, valueIn, value, -, -, rfl⟩ := h
  refine ⟨valueIn, value, rfl, rfl, ?_⟩
  show tally.nFees + nFee = _
  congr 1
  unfold feeOf at fee
  unfold feeOfValues
  by_cases coinStake : tx.isCoinStake = true
  · rw [if_pos coinStake] at fee
    rw [if_pos (by simp [coinStake])]
    exact (Option.some.inj fee).symm
  · rw [if_neg coinStake, value, out] at fee
    rw [if_neg (by simp [coinBase, coinStake])]
    exact (Option.some.inj fee).symm

theorem connectTransaction_tally {i : Nat} {tx : CTransaction}
    (h : connectTransaction env fScriptChecks i tx tally s = .ok tally' s') :
    ∃ valueIn valueOut, s.view.coins.getValueIn tx = some valueIn ∧
      tx.getValueOut = some valueOut ∧ tally'.nValueIn = tally.nValueIn + valueIn ∧
        tally'.nValueOut = tally.nValueOut + valueOut ∧
          tally'.nFees = tally.nFees + feeOfValues tx valueIn valueOut := by
  unfold connectTransaction at h
  simp only at h
  split at h
  · rename_i tally'' coins result
    simp only [bind_ok, orCrash_eq_ok, Except.ok.injEq, Prod.mk.injEq, Prod.exists] at result
    obtain ⟨-, -, middle, inputs, valueOut, out, _, _, -, rfl, -⟩ := result
    obtain ⟨rfl, -⟩ := h
    obtain ⟨valueIn, value, sumIn, sumOut, fees⟩ := connectInputs_tally inputs out
    refine ⟨valueIn, valueOut, value, out, sumIn, ?_, fees⟩
    rw [sumOut]
  · cases h

/-- The loop adds the totals of the transactions to its sums. -/
theorem connectTransactions_tally {i : Nat} {vtx : List CTransaction}
    (h : connectTransactions env fScriptChecks i vtx tally s = .ok tally' s') :
    ∃ totals, blockTotals s.pindex.nHeight s.view.coins vtx = some totals ∧
      tally'.nValueIn = tally.nValueIn + totals.valueIn ∧
        tally'.nValueOut = tally.nValueOut + totals.valueOut ∧
          tally'.nFees = tally.nFees + totals.fees := by
  induction vtx generalizing i tally s with
  | nil =>
    obtain ⟨rfl, rfl⟩ := EStateM.Result.ok.inj h
    exact ⟨⟨0, 0, 0⟩, rfl, by simp, by simp, by simp⟩
  | cons tx vtx ih =>
    rw [connectTransactions, validation_bind_ok] at h
    obtain ⟨middle, s'', first, rest⟩ := h
    obtain ⟨valueIn, valueOut, hIn, hOut, sumIn, sumOut, fees⟩ := connectTransaction_tally first
    obtain ⟨coins, txundo, updates, rfl, -, -⟩ := connectTransaction_ok first
    obtain ⟨totals, later, laterIn, laterOut, laterFees⟩ := ih rest
    have later' : blockTotals s.pindex.nHeight coins vtx = some totals := later
    refine ⟨⟨valueIn + totals.valueIn, valueOut + totals.valueOut,
      feeOfValues tx valueIn valueOut + totals.fees⟩, ?_, ?_, ?_, ?_⟩
    · simp only [blockTotals, hIn, hOut, updates, later', Option.map_some]
    · rw [laterIn, sumIn, Int.add_assoc]
    · rw [laterOut, sumOut, Int.add_assoc]
    · rw [laterFees, fees, Int.add_assoc]

/-! ## The supply after a call -/

/-- The supply of the entry is unchanged. -/
def SameSupply (s s' : ConnectState) : Prop := s'.pindex.nMoneySupply = s.pindex.nMoneySupply

theorem keeps_sameSupply_writeBlock (env : ConnectEnv) (block : CBlock) (tally : BlockTally) :
    Keeps SameSupply (writeBlock env block tally) := by
  have trans : ∀ a b c, SameSupply a b → SameSupply b c → SameSupply a c :=
    fun _ _ _ first second => second.trans first
  refine Keeps.bind trans ?_ fun _ => Keeps.bind trans ?_ fun _ => Keeps.bind trans ?_ fun _ => ?_
  · intro s
    unfold writeUndo
    split
    · rfl
    split
    · rfl
    · split
      · rfl
      · split <;> rfl
  · intro s
    unfold writeTxIndex
    split
    · rfl
    · split <;> rfl
  · exact fun _ => rfl
  · intro s
    unfold setBestBlock
    split <;> rfl

theorem mintLimit_congr {params : CChainParams} {first second : BlockMap} {chain : CChain}
    (h : first.deref chain.tip = second.deref chain.tip) (nHeight : Int) :
    mintLimit params first chain nHeight = mintLimit params second chain nHeight := by
  simp only [mintLimit, getBlockValue, getDevFeeValue, h]

theorem tip_isSome_of_mintLimit {params : CChainParams} {mapBlockIndex : BlockMap}
    {chain : CChain} {nHeight limit : Int}
    (h : mintLimit params mapBlockIndex chain nHeight = some limit) : chain.tip.isSome = true := by
  cases tip : chain.tip with
  | some _ => rfl
  | none =>
    have empty : chain.vChain = [] := List.getLast?_eq_none_iff.mp tip
    have low : ¬ chain.height > CONSENSUS_FORK_REWARD_UPDATE_BLOCK := by
      rw [CChain.height, empty]
      decide
    simp [mintLimit, getBlockValue, low, tip, BlockMap.deref] at h

/-- What a block adds to the supply of its parent: its outputs less its inputs, which is at most
the limit of the reward, and the fees of a proof-of-work block. -/
theorem connectBlock_supply {block : CBlock} {fJustCheck fAlreadyChecked : Bool}
    (notGenesis : block.getHash ≠ env.params.hashGenesisBlock)
    (prevOther : s.pindex.phashBlock ≠ s.pindex.pprev)
    (tipOther : s.pindex.phashBlock ≠ s.node.chainActive.tip)
    (h : connectBlock env block fJustCheck fAlreadyChecked s = .ok () s') :
    ∃ parent totals limit, s.pindexPrev = some parent ∧
      blockTotals s.pindex.nHeight s.view.coins block.vtx = some totals ∧
      mintLimit env.params s.node.mapBlockIndex s.node.chainActive parent.nHeight = some limit ∧
      s'.pindex.nMoneySupply = parent.nMoneySupply + totals.valueOut - totals.valueIn ∧
      totals.valueOut - totals.valueIn ≤
        limit + if block.isProofOfWork then totals.fees else 0 := by
  simp only [connectBlock, validation_bind_ok, checking_ok] at h
  obtain ⟨_, _, ⟨-, rfl⟩, _, _, ⟨-, rfl⟩, h⟩ := h
  rw [if_neg notGenesis] at h
  simp only [connectNonGenesis, validation_bind_ok, checking_ok] at h
  obtain ⟨_, _, ⟨-, rfl⟩, _, _, ⟨-, rfl⟩, _, _, ⟨-, rfl⟩, _, _, hget, tally, looped, loop, _,
    recorded, supply, _, _, ⟨mint, rfl⟩, _, _, ⟨-, rfl⟩, writes⟩ := h
  obtain ⟨rfl, rfl⟩ := EStateM.Result.ok.inj hget
  obtain ⟨totals, sums, sumIn, sumOut, fees⟩ := connectTransactions_tally loop
  obtain ⟨coins, done, -, rfl, -, -⟩ := connectTransactions_ok loop
  obtain ⟨-, -, supplyPrev, hprev, index⟩ := recordSupply_ok supply
  have frame := (keeps_recordSupply env block tally).of_ok supply
  simp only [Int.zero_add] at sumIn sumOut fees
  -- The entry that is changed is neither the parent's nor the tip's.
  have deref : ∀ pointer, s.pindex.phashBlock ≠ pointer →
      recorded.node.mapBlockIndex.deref pointer = s.node.mapBlockIndex.deref pointer := by
    intro pointer other
    cases pointer with
    | none => rfl
    | some hash => exact frame.others hash other
  have samePrev : recorded.pindexPrev = s.pindexPrev := by
    rw [ConnectState.pindexPrev, index]
    exact deref _ prevOther
  simp only [checkMint, bind_ok, orCrash_eq_ok] at mint
  obtain ⟨parent, hparent, limit, hlimit, valid⟩ := mint
  rw [samePrev] at hparent
  rw [mintLimit_congr (deref _ (by rw [frame.chainActive]; exact tipOther)),
    frame.chainActive] at hlimit
  have supplyPrev_eq : supplyPrev = parent.nMoneySupply := by
    rw [hprev]
    show (s.pindexPrev.map CBlockIndex.nMoneySupply).getD 0 = _
    rw [hparent, Option.map_some, Option.getD_some]
  have kept : s'.pindex.nMoneySupply = recorded.pindex.nMoneySupply := by
    split at writes
    · obtain ⟨-, rfl⟩ := EStateM.Result.ok.inj writes
      rfl
    · exact (keeps_sameSupply_writeBlock env block tally).of_ok writes
  refine ⟨parent, totals, limit, hparent, sums, hlimit, ?_, ?_⟩
  · rw [kept, index, supplyPrev_eq, sumIn, sumOut]
  have minted : recorded.pindex.nMint ≤
      if block.isProofOfWork then limit + tally.nFees else limit := by
    have valid := rejectIf_eq_ok.mp valid
    unfold isBlockValueValid at valid
    split at valid
    · rename_i noTip
      have tip := tip_isSome_of_mintLimit hlimit
      rw [frame.chainActive] at noTip
      rw [noTip] at tip
      cases tip
    · simpa using valid
  rw [index] at minted
  simp only [sumIn, sumOut, fees] at minted
  split at minted <;> rename_i kind
  · rw [if_pos kind]
    omega
  · rw [if_neg kind]
    omega

/-! ## Over a run -/

/-- A node of these parameters before it has a chain: the genesis block has no parent. -/
structure FromGenesis (params : CChainParams) (c : ChainState) : Prop where
  wellFormed : c.node.mapBlockIndex.WellFormed
  noChain : c.node.chainActive = ⟨[]⟩
  genesis : ∀ pindex, c.node.mapBlockIndex.lookup params.hashGenesisBlock = some pindex →
    pindex.pprev = none

/-- The move is made under these parameters, and connects no proof-of-work block whose
transactions pay fees. -/
def NoPaidWork (params : CChainParams) (c : ChainState) : TipAction → Prop
  | .connect env hash pblock _ => env.params = params ∧
    ∀ block pindex totals, blockToConnect env hash (handedOver hash pblock) = some block →
      c.node.mapBlockIndex.lookup hash = some pindex →
      blockTotals pindex.nHeight c.view.coins block.vtx = some totals →
      block.isProofOfWork = true → totals.fees ≤ 0
  | .disconnect env => env.params = params

/-- A block the move connects adds its outputs less its inputs to the supply of its parent, and
that is at most the reward and the dev fee allowed on top of the parent. -/
def RaisesWithinLimit (params : CChainParams) (c : ChainState) : TipAction → Prop
  | .connect env hash pblock fAlreadyChecked => ∀ c',
    connectTip env hash (handedOver hash pblock) fAlreadyChecked c = .ok () c' →
    hash ≠ params.hashGenesisBlock →
    ∃ block pindex parent totals limit,
      blockToConnect env hash (handedOver hash pblock) = some block ∧
      c'.node.mapBlockIndex.lookup hash = some pindex ∧
      c.node.mapBlockIndex.deref c.node.chainActive.tip = some parent ∧
      pindex.pprev = c.node.chainActive.tip ∧
      blockTotals pindex.nHeight c.view.coins block.vtx = some totals ∧
      mintLimit params c.node.mapBlockIndex c.node.chainActive parent.nHeight = some limit ∧
      pindex.nMoneySupply - parent.nMoneySupply = totals.valueOut - totals.valueIn ∧
      totals.valueOut - totals.valueIn ≤ limit
  | .disconnect _ => True

/-- Every block of the active chain has added to the supply of its parent at most the reward and
the dev fee allowed on top of the parent, in the chain that ends there. -/
def ChainWithinLimit (params : CChainParams) (c : ChainState) : Prop :=
  ∀ i hashPrev hash, c.node.chainActive.vChain[i]? = some hashPrev →
    c.node.chainActive.vChain[i + 1]? = some hash →
    ∃ parent pindex limit, c.node.mapBlockIndex.lookup hashPrev = some parent ∧
      c.node.mapBlockIndex.lookup hash = some pindex ∧
      mintLimit params c.node.mapBlockIndex ⟨c.node.chainActive.vChain.take (i + 1)⟩
        parent.nHeight = some limit ∧
      pindex.nMoneySupply - parent.nMoneySupply ≤ limit

/-- What holds throughout a run from genesis. -/
structure SupplyInvariant (params : CChainParams) (c : ChainState) : Prop where
  sound : c.Sound
  genesis : ∀ pindex, c.node.mapBlockIndex.lookup params.hashGenesisBlock = some pindex →
    pindex.pprev = none
  within : ChainWithinLimit params c

section Run

variable {params : CChainParams} {c c' : ChainState}

theorem FromGenesis.invariant (h : FromGenesis params c) : SupplyInvariant params c where
  sound := ⟨h.wellFormed, by rw [h.noChain]; exact CChain.Linked.nil⟩
  genesis := h.genesis
  within i hashPrev hash here _ := by
    rw [h.noChain] at here
    simp at here

theorem tip_take (chain : CChain) {i : Nat} {hash : UInt256}
    (here : chain.vChain[i]? = some hash) :
    (⟨chain.vChain.take (i + 1)⟩ : CChain).tip = some hash := by
  show (chain.vChain.take (i + 1)).getLast? = _
  rw [take_add_one, here]
  simp

/-- A connected block, as far as the supply is concerned. -/
theorem raisesWithinLimit_of_noPaidWork (invariant : SupplyInvariant params c) {a : TipAction}
    (h : NoPaidWork params c a) : RaisesWithinLimit params c a := by
  cases a with
  | disconnect env => trivial
  | connect env hash pblock fAlreadyChecked =>
    intro c' connects notGenesis
    obtain ⟨hparams, noFees⟩ := h
    have sound := invariant.sound
    obtain ⟨pindex, block, s, found, prev, read, connected, rfl⟩ := connectTip_ok sound connects
    obtain ⟨own, filed⟩ := filed_of_lookup sound found
    have frame := frame_connectBlock env.toConnectEnv block
      ((handedOver hash pblock).isSome && fAlreadyChecked) (s := ⟨c.node, pindex, c.view⟩)
      (by simp [own])
    rw [connected] at frame
    have hashed := getHash_of_blockToConnect read
    have prevOther : pindex.phashBlock ≠ pindex.pprev := by
      intro same
      rw [own] at same
      exact sound.wellFormed.ne_pprev found same.symm rfl
    obtain ⟨parent, totals, limit, hparent, sums, hlimit, supply, within⟩ :=
      connectBlock_supply (by rw [hashed, hparams]; exact notGenesis) prevOther
        (show pindex.phashBlock ≠ _ by rw [← prev]; exact prevOther) connected
    have here : s.node.mapBlockIndex.lookup hash = some s.pindex :=
      frame.filed filed hash ((congrArg Prod.fst frame.place).trans own)
    have place : s.pindex.place = pindex.place := frame.place
    simp only [CBlockIndex.place, Prod.mk.injEq] at place
    refine ⟨block, s.pindex, parent, totals, limit, read, here, ?_, place.2.1.trans prev, ?_, ?_,
      ?_, ?_⟩
    · rw [← prev]
      exact hparent
    · rw [place.2.2]
      exact sums
    · rw [← hparams]
      exact hlimit
    · omega
    · have fees := noFees block pindex totals read found sums
      split at within
      · have := fees (by assumption)
        omega
      · omega

theorem ChainWithinLimit.of_entries (h : ChainWithinLimit params c)
    (chain : c'.node.chainActive.vChain <+: c.node.chainActive.vChain)
    (entries : ∀ key ∈ c.node.chainActive.vChain,
      c'.node.mapBlockIndex.lookup key = c.node.mapBlockIndex.lookup key) :
    ChainWithinLimit params c' := by
  intro i hashPrev hash herePrev here
  obtain ⟨rest, split⟩ := chain
  have bound := (List.getElem?_eq_some_iff.mp here).1
  have onChain : ∀ (j : Nat) (key : UInt256), c'.node.chainActive.vChain[j]? = some key →
      c.node.chainActive.vChain[j]? = some key := by
    intro j key inside
    rw [← split, List.getElem?_append_left (List.getElem?_eq_some_iff.mp inside).1, inside]
  obtain ⟨parent, pindex, limit, hparent, hindex, hlimit, within⟩ :=
    h i hashPrev hash (onChain _ _ herePrev) (onChain _ _ here)
  have samePrev := entries hashPrev (mem_of_getElem? (onChain _ _ herePrev))
  have sameIndex := entries hash (mem_of_getElem? (onChain _ _ here))
  refine ⟨parent, pindex, limit, samePrev.trans hparent, sameIndex.trans hindex, ?_, within⟩
  have sameTake : c.node.chainActive.vChain.take (i + 1) =
      c'.node.chainActive.vChain.take (i + 1) := by
    rw [← split, take_append_of_le_length (by omega)]
  rw [← hlimit, sameTake]
  refine mintLimit_congr ?_ _
  rw [tip_take _ herePrev]
  exact samePrev

theorem SupplyInvariant.within_append (invariant : SupplyInvariant params c) {env : TipEnv}
    {hash : UInt256} {pblock : Option CBlock} {fAlreadyChecked : Bool}
    (connects : connectTip env hash (handedOver hash pblock) fAlreadyChecked c = .ok () c')
    (raises : RaisesWithinLimit params c (.connect env hash pblock fAlreadyChecked))
    (entries : ∀ key ∈ c.node.chainActive.vChain,
      c'.node.mapBlockIndex.lookup key = c.node.mapBlockIndex.lookup key) :
    ChainWithinLimit params c' := by
  have sound := invariant.sound
  have chain : c'.node.chainActive.vChain = c.node.chainActive.vChain ++ [hash] := by
    obtain ⟨_, _, _, -, -, -, -, rfl⟩ := connectTip_ok sound connects
    rfl
  have before : ChainWithinLimit params
      { c' with node := { c'.node with chainActive := c.node.chainActive } } :=
    invariant.within.of_entries (prefix_refl _) entries
  intro i hashPrev own herePrev here
  rw [chain] at herePrev here
  rcases Nat.lt_or_ge (i + 1) c.node.chainActive.vChain.length with below | atEnd
  · rw [List.getElem?_append_left (by omega)] at herePrev
    rw [List.getElem?_append_left below] at here
    obtain ⟨parent, pindex, limit, hparent, hindex, hlimit, within⟩ :=
      before i hashPrev own herePrev here
    refine ⟨parent, pindex, limit, hparent, hindex, ?_, within⟩
    rw [chain, take_append_of_le_length (by omega)]
    exact hlimit
  have bound := (List.getElem?_eq_some_iff.mp here).1
  rw [length_append, length_singleton] at bound
  have length : c.node.chainActive.vChain.length = i + 1 := by omega
  rw [List.getElem?_append_left (by omega)] at herePrev
  rw [← length, List.getElem?_concat_length] at here
  obtain rfl := Option.some.inj here
  have tip : c.node.chainActive.tip = some hashPrev := by
    rw [CChain.tip_eq_getElem?, length]
    exact herePrev
  have notGenesis : hash ≠ params.hashGenesisBlock := by
    rintro rfl
    obtain ⟨pindex, _, _, found, prev, -⟩ := connectTip_ok sound connects
    rw [invariant.genesis pindex found, tip] at prev
    cases prev
  obtain ⟨block, pindex, parent, totals, limit, -, found, hparent, -, -, hlimit, raise, within⟩ :=
    raises c' connects notGenesis
  rw [tip] at hparent
  have hparent : c.node.mapBlockIndex.lookup hashPrev = some parent := hparent
  have same := entries hashPrev (mem_of_getElem? herePrev)
  refine ⟨parent, pindex, limit, same.trans hparent, found, ?_, by omega⟩
  rw [← hlimit, chain, take_append_of_le_length (by omega),
    take_of_length_le (by omega)]
  refine mintLimit_congr ?_ _
  rw [tip]
  exact same

theorem SupplyInvariant.step (invariant : SupplyInvariant params c) {a : TipAction}
    (h : NoPaidWork params c a) : SupplyInvariant params (tipStep c a) := by
  have raises := raisesWithinLimit_of_noPaidWork invariant h
  have sound := invariant.sound
  refine ⟨sound.step a, ?_, ?_⟩
  · intro pindex found
    have tree : c.node.mapBlockIndex.SameTree (tipStep c a).node.mapBlockIndex := by
      cases a with
      | connect env hash pblock fAlreadyChecked => exact (connectTip_index sound rfl).1
      | disconnect env =>
        rw [show (tipStep c (.disconnect env)).node.mapBlockIndex = _ from disconnectTip_index rfl]
        exact BlockMap.SameTree.refl _
    obtain ⟨pindex', found', place⟩ := tree.symm.lookup found
    exact (congrArg (fun place => place.2.1) place).symm.trans (invariant.genesis pindex' found')
  cases a with
  | disconnect env =>
    have same : (tipStep c (.disconnect env)).node.mapBlockIndex = c.node.mapBlockIndex :=
      disconnectTip_index rfl
    refine invariant.within.of_entries ?_ fun key _ => by rw [same]
    show (stateOf (disconnectTip env c)).node.chainActive.vChain <+: _
    cases result : disconnectTip env c with
    | error failure c' =>
      have same : c'.node.chainActive = c.node.chainActive := disconnectTip_error result
      exact same ▸ prefix_refl _
    | ok _ c' =>
      obtain ⟨_, _, _, _, -, -, -, -, -, rfl⟩ := disconnectTip_ok sound result
      exact dropLast_prefix _
  | connect env hash pblock fAlreadyChecked =>
    have entries : ∀ key ∈ c.node.chainActive.vChain,
        (stateOf (connectTip env hash (handedOver hash pblock) fAlreadyChecked c)
          ).node.mapBlockIndex.lookup key = c.node.mapBlockIndex.lookup key :=
      fun key onChain => connectTip_onChain sound onChain
    show ChainWithinLimit params (stateOf (connectTip _ _ _ _ _))
    cases result : connectTip env hash (handedOver hash pblock) fAlreadyChecked c with
    | error failure c' =>
      rw [result] at entries
      refine invariant.within.of_entries ?_ entries
      have same : c'.node.chainActive = c.node.chainActive := connectTip_error sound result
      exact same ▸ prefix_refl _
    | ok _ c' =>
      rw [result] at entries
      exact invariant.within_append result raises entries

end Run

/-- In every run of the tip that connects no proof-of-work block with paid fees, every block adds
its outputs less its inputs to the money supply, at most the reward and the dev fee allowed for it.
-/
theorem moneySupply_raised_within_limit {params : CChainParams} {start : ChainState}
    (fromGenesis : FromGenesis params start) {actions : List TipAction}
    (h : AllSteps tipStep (NoPaidWork params) start actions) :
    AllSteps tipStep (RaisesWithinLimit params) start actions ∧
      ChainWithinLimit params (run tipStep start actions) := by
  have preserved : ∀ (c : ChainState) (a : TipAction), SupplyInvariant params c →
      NoPaidWork params c a → SupplyInvariant params (tipStep c a) :=
    fun _ _ invariant hstep => invariant.step hstep
  constructor
  · exact h.of_invariant preserved
      (fun _ _ invariant hstep => raisesWithinLimit_of_noPaidWork invariant hstep)
      fromGenesis.invariant
  · exact (h.invariant preserved fromGenesis.invariant).within

/-! ## A proof-of-work block that takes its fees twice -/

def headersOnly : ChainState where
  node :=
    { mapBlockIndex :=
        heightsMap (fun h => { straightIndex h with nMoneySupply := 0 }) 18 eighteen_small
      chainActive := ⟨[]⟩ }
  view := ⟨FlatCoins.empty, 0⟩

/-- The coinbase at height `h`, which pays out `nValue`. -/
def coinBaseAt (h : Nat) (nValue : Int) : CTransaction :=
  ⟨BitVec.ofNat 256 (2000 + h), 1, [{ prevout := COutPoint.null, scriptSig := [0x02, 0x01] }],
    [⟨nValue, [0x51]⟩], 0, []⟩

/-- The block at height `h` with these transactions. -/
def blockAt (h : Nat) (vtx : List CTransaction) : CBlock where
  nVersion := 4
  hashPrevBlock := BitVec.ofNat 256 h
  hashMerkleRoot := 0
  nTime := 1600000000
  nBits := 0
  nNonce := 0
  hash := BitVec.ofNat 256 (h + 1)
  vtx

/-- `ConnectTip` with the block at height `h`, on a regression-test node without faults. -/
def connectAt (h : Nat) (vtx : List CTransaction) : TipAction :=
  .connect { lenientEnv with params := regTestParams 1, blockFile := none, flushStateToDisk := true }
    (BitVec.ofNat 256 (h + 1)) (some (blockAt h vtx)) true

/-- Blocks of a coinbase each: the one at height 1 pays out 100 COIN, the others nothing. -/
def coinBaseBlocks (n : Nat) : List TipAction :=
  (List.range n).map fun h => connectAt h [coinBaseAt h (if h = 1 then 100 * COIN else 0)]

/-- The coinbase of height 1 is spent with a fee of 10 COIN, and 20 COIN are claimed for it. -/
def doubleFeeBlock : TipAction :=
  connectAt 17 [coinBaseAt 17 (20 * COIN),
    ⟨3000, 1, [{ prevout := ⟨2001, 0⟩ }], [⟨90 * COIN, [0x51]⟩], 0, []⟩]

theorem headersOnly_fromGenesis : FromGenesis (regTestParams 1) headersOnly where
  wellFormed := heightsMap_wellFormed (fun _ => rfl) (by decide)
  noChain := rfl
  genesis pindex found := by
    rw [heightsMap_lookup_one (by decide) found]
    rfl

/-- A coinbase on its own pays no fees. -/
theorem noPaidWork_connectAt (c : ChainState) (h : Nat) (nValue : Int) :
    NoPaidWork (regTestParams 1) c (connectAt h [coinBaseAt h nValue]) := by
  refine ⟨rfl, fun block pindex totals read _ sums _ => ?_⟩
  have same : block = blockAt h [coinBaseAt h nValue] := by
    have handed : handedOver (BitVec.ofNat 256 (h + 1)) (some (blockAt h [coinBaseAt h nValue])) =
        some (blockAt h [coinBaseAt h nValue]) := by simp [handedOver, blockAt, CBlock.getHash]
    rw [handed] at read
    exact (Option.some.inj read).symm
  subst same
  simp only [blockAt, blockTotals] at sums
  split at sums
  · simp only [Option.map_some, Option.some.injEq] at sums
    rw [← sums]
    exact Int.le_refl 0
  · cases sums

/-- The first three blocks. -/
theorem coinBaseBlocks_within_limit :
    ChainWithinLimit (regTestParams 1) (run tipStep headersOnly (coinBaseBlocks 3)) ∧
      (run tipStep headersOnly (coinBaseBlocks 3)).node.chainActive.height = 2 := by
  have noFees : AllSteps tipStep (NoPaidWork (regTestParams 1)) headersOnly (coinBaseBlocks 3) := by
    refine AllSteps.of_forall (fun a member c => ?_) headersOnly
    obtain ⟨h, -, rfl⟩ := mem_map.mp member
    exact noPaidWork_connectAt c h _
  exact ⟨(moneySupply_raised_within_limit headersOnly_fromGenesis noFees).2, by decide +kernel⟩

/-- The block with the doubled fee is connected and adds 10 COIN where nothing is allowed. -/
theorem doubleFeeBlock_raises_past_limit :
    FromGenesis (regTestParams 1) headersOnly ∧
      ¬ ChainWithinLimit (regTestParams 1)
        (run tipStep headersOnly (coinBaseBlocks 17 ++ [doubleFeeBlock])) := by
  refine ⟨headersOnly_fromGenesis, fun within => ?_⟩
  obtain ⟨parent, pindex, limit, hparent, hindex, hlimit, raise⟩ :=
    within 16 17 18 (by decide +kernel) (by decide +kernel)
  have before : ((run tipStep headersOnly (coinBaseBlocks 17 ++ [doubleFeeBlock])
      ).node.mapBlockIndex.lookup 17).map (fun p => (p.nHeight, p.nMoneySupply)) =
        some (16, 100 * COIN) := by decide +kernel
  have after : ((run tipStep headersOnly (coinBaseBlocks 17 ++ [doubleFeeBlock])
      ).node.mapBlockIndex.lookup 18).map CBlockIndex.nMoneySupply = some (110 * COIN) := by
    decide +kernel
  have allowed : mintLimit (regTestParams 1)
      (run tipStep headersOnly (coinBaseBlocks 17 ++ [doubleFeeBlock])).node.mapBlockIndex
      ⟨(run tipStep headersOnly (coinBaseBlocks 17 ++ [doubleFeeBlock])
        ).node.chainActive.vChain.take 17⟩ 16 = some 0 := by decide +kernel
  rw [hparent] at before
  rw [hindex] at after
  simp only [Option.map_some, Option.some.injEq, Prod.mk.injEq] at before after
  rw [before.1, allowed] at hlimit
  obtain rfl := Option.some.inj hlimit
  rw [before.2, after] at raise
  exact absurd raise (by decide)

end Esbcoin
