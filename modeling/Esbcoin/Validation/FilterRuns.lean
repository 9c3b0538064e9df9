import Esbcoin.Lib.StepRun
import Esbcoin.Validation.TxFilter

/-!
# The address filter along the active chain

Connecting and disconnecting blocks changes the filter (`src/main.cpp:2122-2126, 2366-2367`), as do
a value of spork 9 and the end of synchronisation. Both tests of the block code compare the target
with `>`: the block at the target height itself neither builds the filter when it is connected nor
clears it when it is disconnected.
-/

namespace Esbcoin

open List

/-- A node, as far as the filter depends on it. -/
structure FilterNode where
  /-- The blocks of the active chain, by height. -/
  blocks : List CBlock
  /-- `GetSporkValue(SPORK_9_TX_FILTERING_ENFORCEMENT)`. -/
  sporkValue : BitVec 64
  txFilter : TxFilter := {}

/-- What changes the filter. -/
inductive FilterStep where
  /-- `ConnectBlock` of a block on the tip. -/
  | connect (block : CBlock)
  /-- `DisconnectBlock` of the tip. -/
  | disconnect
  /-- A value of spork 9 is accepted (`spork.cpp:53-60`, `:117-119`). -/
  | executeSpork (sporkValue : BitVec 64)
  /-- `CMasternodeSync::GetNextAsset` has finished (`masternode-sync.cpp:159`). -/
  | syncFinished

namespace FilterNode

variable (rules : FilterRules)

/-- The node as `ConnectBlock` sees it. -/
def connectEnv (node : FilterNode) : ConnectEnv :=
  { lenientEnv with
    initTxFilter := rules.initTxFilter
    buildTxFilter := rules.buildTxFilter node.blocks node.sporkValue }

/-- One change. The block that is connected is not part of the active chain yet, the one that is
disconnected still is. -/
def step (node : FilterNode) : FilterStep → FilterNode
  | .connect block =>
    { node with
      blocks := node.blocks ++ [block]
      txFilter := filterAfterConnect (node.connectEnv rules) node.blocks.length node.txFilter }
  | .disconnect =>
    if node.blocks.isEmpty then node
    else
      { node with
        blocks := node.blocks.dropLast
        txFilter := filterAfterDisconnect (node.connectEnv rules) (node.blocks.length - 1)
          node.txFilter }
  | .executeSpork sporkValue =>
    { node with
      sporkValue
      txFilter := rules.buildTxFilter node.blocks sporkValue node.txFilter }
  | .syncFinished =>
    if node.txFilter.txFilterState then node
    else { node with txFilter := rules.buildTxFilter node.blocks node.sporkValue node.txFilter }

end FilterNode

/-! ## What the filter should be -/

namespace FilterRules

variable (rules : FilterRules)

/-- The output pays to the address. -/
def PaysTo (out : CTxOut) (address : List UInt8) : Prop :=
  0 < out.nValue ∧ ∃ dest, extractDestination rules.hash160 out.scriptPubKey = some dest ∧
    address = addressOf rules.params dest

/-- The spork selects a transaction that pays the address. -/
def Selected (sporkMask : BitVec 32) (block : CBlock) (address : List UInt8) : Prop :=
  ∃ i tx, i < 32 ∧ sporkMask.getLsbD i = true ∧ block.vtx[i]? = some tx ∧
    ∃ out ∈ tx.vout, rules.PaysTo out address

/-- An address that is always filtered. -/
def Base (address : List UInt8) : Prop := (rules.base.lookup address).isSome = true

end FilterRules

namespace FilterNode

/-- The block at the target height, if the active chain reaches it. Height 0 is no target. -/
def reference (node : FilterNode) : Option CBlock :=
  if node.txFilter.txFilterTarget = 0 then none
  else FilterRules.blockAt node.blocks node.txFilter.txFilterTarget

/-- The address is in the filter. -/
def Holds (node : FilterNode) (address : List UInt8) : Prop :=
  (node.txFilter.mapFilterAddress.lookup address).isSome = true

/-- The filter is that of the active chain. -/
structure FilterRight (rules : FilterRules) (node : FilterNode) : Prop where
  /-- On a chain with the target block, the filter that is on has its selected addresses. -/
  reached : ∀ block, node.reference = some block → node.txFilter.txFilterState = true →
    ∀ address, node.Holds address ↔
      rules.Base address ∨ rules.Selected (FilterRules.maskOf node.sporkValue) block address
  /-- On a chain without it, no address of a block. -/
  below : node.reference = none → ∀ address, node.Holds address → rules.Base address

/-- The selected addresses are always filtered. -/
def AddsNothing (rules : FilterRules) (sporkMask : BitVec 32) (block : CBlock) : Prop :=
  ∀ address, rules.Selected sporkMask block address → rules.Base address

/-- A block whose addresses `BuildTxFilter` reads right: what the shift takes past the width adds
nothing, and the first output it gets to has a destination. -/
def ReadRight (rules : FilterRules) (sporkMask : BitVec 32) (block : CBlock) : Prop :=
  (∀ i tx, 32 ≤ i → rules.shiftPast sporkMask i = true → block.vtx[i]? = some tx →
    ∀ out ∈ tx.vout, ∀ address, rules.PaysTo out address →
      rules.Base address ∨ rules.Selected sporkMask block address) ∧
  ((∃ out, (rules.takenOutputs sporkMask block).head? = some out ∧
      extractDestination rules.hash160 out.scriptPubKey = none) → rules.Base [])

/-- The target block of a value of spork 9 is read right, if the active chain has it. -/
def BuildsRight (rules : FilterRules) (node : FilterNode) (sporkValue : BitVec 64) : Prop :=
  ∀ block, FilterRules.targetOf sporkValue ≠ 0 →
    FilterRules.blockAt node.blocks (FilterRules.targetOf sporkValue) = some block →
    ReadRight rules (FilterRules.maskOf sporkValue) block

/-- The condition on a step: where the filter is on, a block at the target height that is connected
or disconnected has no address to add; a block the filter is built from is read right. -/
def StepRight (rules : FilterRules) (node : FilterNode) : FilterStep → Prop
  | .connect block =>
    node.txFilter.txFilterState = true → node.txFilter.txFilterTarget ≠ 0 →
      node.txFilter.txFilterTarget = node.blocks.length →
      AddsNothing rules (FilterRules.maskOf node.sporkValue) block
  | .disconnect =>
    node.txFilter.txFilterState = true → node.txFilter.txFilterTarget ≠ 0 →
      ∀ block, node.blocks.getLast? = some block →
        node.txFilter.txFilterTarget = node.blocks.length - 1 →
        AddsNothing rules (FilterRules.maskOf node.sporkValue) block
  | .executeSpork sporkValue => node.BuildsRight rules sporkValue
  | .syncFinished =>
    node.txFilter.txFilterState = false → node.BuildsRight rules node.sporkValue

end FilterNode

/-! ## What BuildTxFilter adds -/

namespace FilterRules

variable {rules : FilterRules} {sporkMask : BitVec 32} {block : CBlock} {address : List UInt8}

/-- The addresses the loops add, from what `Address` holds. -/
def addedAddresses (rules : FilterRules) : List UInt8 → List CTxOut → List (List UInt8)
  | _, [] => []
  | address, out :: outs =>
    let address :=
      match extractDestination rules.hash160 out.scriptPubKey with
      | some dest => addressOf rules.params dest
      | none => address
    address :: addedAddresses rules address outs

theorem foldl_addOutput (nBlockTime : Int) (outs : List CTxOut) (address : List UInt8)
    (filter : AssocMap (List UInt8) Int) :
    (outs.foldl (rules.addOutput nBlockTime) (address, filter)).2 =
      filter.insertNewAll (rules.addedAddresses address outs) nBlockTime := by
  induction outs generalizing address filter with
  | nil => rfl
  | cons out outs ih =>
    exact ih _ _

/-- The address that stands in for an output without a destination is an earlier one, or the one
the loops start from. -/
theorem mem_addedAddresses {start : List UInt8} {outs : List CTxOut} :
    address ∈ rules.addedAddresses start outs ↔
      (∃ out ∈ outs, ∃ dest, extractDestination rules.hash160 out.scriptPubKey = some dest ∧
        address = addressOf rules.params dest) ∨
      (address = start ∧ ∃ out, outs.head? = some out ∧
        extractDestination rules.hash160 out.scriptPubKey = none) := by
  induction outs generalizing start with
  | nil => simp [addedAddresses]
  | cons out outs ih =>
    simp only [addedAddresses, mem_cons, ih, exists_eq_or_imp, List.head?_cons,
      Option.some.injEq, exists_eq_left']
    cases extracted : extractDestination rules.hash160 out.scriptPubKey with
    | none =>
      simp only [reduceCtorEq, false_and, exists_false, false_or, and_true]
      constructor
      · rintro (equal | member | ⟨equal, -⟩)
        · exact .inr equal
        · exact .inl member
        · exact .inr equal
      · rintro (member | equal)
        · exact .inr (.inl member)
        · exact .inl equal
    | some dest =>
      simp only [Option.some.injEq, exists_eq_left', reduceCtorEq, and_false, or_false]
      constructor
      · rintro (equal | member | ⟨equal, -⟩)
        · exact .inl equal
        · exact .inr member
        · exact .inl equal
      · rintro (equal | member)
        · exact .inl equal
        · exact .inr (.inl member)

theorem mem_takenOutputs {out : CTxOut} :
    out ∈ rules.takenOutputs sporkMask block ↔
      0 < out.nValue ∧ ∃ i tx, block.vtx[i]? = some tx ∧ rules.takes sporkMask i = true ∧
        out ∈ tx.vout := by
  simp only [takenOutputs, mem_flatMap, mem_filter, decide_eq_true_eq, gt_iff_lt,
    Prod.exists, mem_zipIdx_iff_getElem?]
  constructor
  · rintro ⟨tx, i, ⟨found, taken⟩, member, positive⟩
    exact ⟨positive, i, tx, found, taken, member⟩
  · rintro ⟨positive, i, tx, found, taken, member⟩
    exact ⟨tx, i, ⟨found, taken⟩, member, positive⟩

theorem not_selected_nil : ¬ rules.Selected sporkMask block [] := by
  rintro ⟨_, _, _, _, _, _, _, _, dest, -, equal⟩
  simp [addressOf] at equal

theorem mem_added_of_selected (selected : rules.Selected sporkMask block address) :
    address ∈ rules.addedAddresses [] (rules.takenOutputs sporkMask block) := by
  obtain ⟨i, tx, small, bit, found, out, member, positive, dest, extracted, equal⟩ := selected
  refine mem_addedAddresses.mpr (.inl ⟨out, mem_takenOutputs.mpr ?_, dest, extracted, equal⟩)
  refine ⟨positive, i, tx, found, ?_, member⟩
  unfold takes
  rw [if_pos small, bit]

theorem added_right_iff :
    (∀ address ∈ rules.addedAddresses [] (rules.takenOutputs sporkMask block),
      rules.Base address ∨ rules.Selected sporkMask block address) ↔
    FilterNode.ReadRight rules sporkMask block := by
  constructor
  · intro right
    constructor
    · rintro i tx past shifted found out member address ⟨positive, dest, extracted, rfl⟩
      refine right _ (mem_addedAddresses.mpr (.inl ⟨out, ?_, dest, extracted, rfl⟩))
      refine mem_takenOutputs.mpr ⟨positive, i, tx, found, ?_, member⟩
      unfold takes
      rw [if_neg (by omega), shifted]
    · intro first
      rcases right [] (mem_addedAddresses.mpr (.inr ⟨rfl, first⟩)) with base | selected
      · exact base
      · exact absurd selected not_selected_nil
  rintro ⟨past, first⟩ address added
  rcases mem_addedAddresses.mp added with ⟨out, taken, dest, extracted, rfl⟩ | ⟨rfl, empty⟩
  · obtain ⟨positive, i, tx, found, takes, member⟩ := mem_takenOutputs.mp taken
    have pays : rules.PaysTo out (addressOf rules.params dest) :=
      ⟨positive, dest, extracted, rfl⟩
    unfold FilterRules.takes at takes
    by_cases small : i < 32
    · rw [if_pos small] at takes
      exact .inr ⟨i, tx, small, takes, found, out, member, pays⟩
    · rw [if_neg small] at takes
      exact past i tx (by omega) takes found out member _ pays
  · exact .inl (first empty)

variable {blocks : List CBlock} {sporkValue : BitVec 64} {filter : TxFilter}

theorem buildTxFilter_target :
    (rules.buildTxFilter blocks sporkValue filter).txFilterTarget = targetOf sporkValue := by
  unfold buildTxFilter
  simp only
  split
  · rfl
  · split <;> rfl

theorem buildTxFilter_of_zero (zero : targetOf sporkValue = 0) :
    rules.buildTxFilter blocks sporkValue filter = ⟨true, targetOf sporkValue, rules.base⟩ := by
  exact if_pos zero

theorem buildTxFilter_of_none (target : targetOf sporkValue ≠ 0)
    (absent : blockAt blocks (targetOf sporkValue) = none) :
    rules.buildTxFilter blocks sporkValue filter =
      ⟨filter.txFilterState, targetOf sporkValue, rules.base⟩ := by
  unfold buildTxFilter
  simp only [initTxFilter, target, if_false, absent]

theorem buildTxFilter_of_some (target : targetOf sporkValue ≠ 0)
    (found : blockAt blocks (targetOf sporkValue) = some block) :
    rules.buildTxFilter blocks sporkValue filter =
      ⟨true, targetOf sporkValue, rules.base.insertNewAll (rules.addedAddresses []
        (rules.takenOutputs (maskOf sporkValue) block)) block.getBlockTime⟩ := by
  unfold buildTxFilter
  simp only [initTxFilter, target, if_false, found, foldl_addOutput]

end FilterRules

/-! ## One step -/

namespace FilterNode

variable {rules : FilterRules} {node : FilterNode}

/-- What holds of every node, whatever has been connected. -/
structure Tracks (rules : FilterRules) (node : FilterNode) : Prop where
  /-- The target is that of the spork, unless the filter was never built. -/
  target : node.txFilter.txFilterTarget = FilterRules.targetOf node.sporkValue ∨
    (node.txFilter.txFilterState = false ∧ node.txFilter.txFilterTarget = 0)
  on : node.txFilter.txFilterState = true → ∀ address, rules.Base address → node.Holds address
  off : node.txFilter.txFilterState = false → ∀ address, node.Holds address → rules.Base address

/-- A node whose filter has just been built. -/
def rebuilt (rules : FilterRules) (node : FilterNode) (sporkValue : BitVec 64) : FilterNode :=
  { node with
    sporkValue
    txFilter := rules.buildTxFilter node.blocks sporkValue node.txFilter }

theorem reference_rebuilt (sporkValue : BitVec 64) :
    (node.rebuilt rules sporkValue).reference = if FilterRules.targetOf sporkValue = 0 then none
      else FilterRules.blockAt node.blocks (FilterRules.targetOf sporkValue) := by
  unfold reference rebuilt
  simp only [FilterRules.buildTxFilter_target]

theorem holds_insertNewAll {m : AssocMap (List UInt8) Int} {keys : List (List UInt8)} {t : Int}
    {address : List UInt8} : ((m.insertNewAll keys t).lookup address).isSome = true ↔
      (m.lookup address).isSome = true ∨ address ∈ keys := by
  rw [AssocMap.lookup_insertNewAll]
  by_cases member : address ∈ keys <;> simp [member]

theorem tracks_rebuilt (sporkValue : BitVec 64) :
    Tracks rules (node.rebuilt rules sporkValue) := by
  refine ⟨.inl FilterRules.buildTxFilter_target, ?_, ?_⟩
  · intro _ address base
    show ((rules.buildTxFilter node.blocks sporkValue node.txFilter).mapFilterAddress.lookup
      address).isSome = true
    by_cases zero : FilterRules.targetOf sporkValue = 0
    · rw [FilterRules.buildTxFilter_of_zero zero]
      exact base
    cases found : FilterRules.blockAt node.blocks (FilterRules.targetOf sporkValue) with
    | none =>
      rw [FilterRules.buildTxFilter_of_none zero found]
      exact base
    | some block =>
      rw [FilterRules.buildTxFilter_of_some zero found]
      exact holds_insertNewAll.mpr (.inl base)
  intro off address holds
  unfold rebuilt at off
  unfold Holds rebuilt at holds
  by_cases zero : FilterRules.targetOf sporkValue = 0
  · rw [FilterRules.buildTxFilter_of_zero zero] at holds
    exact holds
  cases found : FilterRules.blockAt node.blocks (FilterRules.targetOf sporkValue) with
  | none =>
    rw [FilterRules.buildTxFilter_of_none zero found] at holds
    exact holds
  | some block =>
    simp only [FilterRules.buildTxFilter_of_some zero found] at off
    cases off

/-- A filter that has just been built is right exactly where its block is read right. -/
theorem filterRight_rebuilt (sporkValue : BitVec 64) :
    FilterRight rules (node.rebuilt rules sporkValue) ↔ node.BuildsRight rules sporkValue := by
  by_cases zero : FilterRules.targetOf sporkValue = 0
  · have right : FilterRight rules (node.rebuilt rules sporkValue) := by
      have none := @reference_rebuilt rules node sporkValue
      rw [if_pos zero] at none
      refine ⟨fun block found => ?_, fun _ address holds => ?_⟩
      · rw [none] at found
        cases found
      · unfold Holds rebuilt at holds
        rw [FilterRules.buildTxFilter_of_zero zero] at holds
        exact holds
    exact ⟨fun _ block target => absurd zero target, fun _ => right⟩
  have reference := @reference_rebuilt rules node sporkValue
  rw [if_neg zero] at reference
  cases found : FilterRules.blockAt node.blocks (FilterRules.targetOf sporkValue) with
  | none =>
    rw [found] at reference
    have right : FilterRight rules (node.rebuilt rules sporkValue) := by
      refine ⟨fun block found => ?_, fun _ address holds => ?_⟩
      · rw [reference] at found
        cases found
      · unfold Holds rebuilt at holds
        rw [FilterRules.buildTxFilter_of_none zero found] at holds
        exact holds
    refine ⟨fun _ block _ found' => ?_, fun _ => right⟩
    rw [found] at found'
    cases found'
  | some block =>
    rw [found] at reference
    have holds : ∀ address, (node.rebuilt rules sporkValue).Holds address ↔
        rules.Base address ∨ address ∈ rules.addedAddresses []
          (rules.takenOutputs (FilterRules.maskOf sporkValue) block) := by
      intro address
      unfold Holds rebuilt
      rw [FilterRules.buildTxFilter_of_some zero found]
      exact holds_insertNewAll
    have on : (node.rebuilt rules sporkValue).txFilter.txFilterState = true := by
      unfold rebuilt
      rw [FilterRules.buildTxFilter_of_some zero found]
    constructor
    · intro right block' _ found'
      obtain rfl := Option.some.inj (found.symm.trans found')
      refine FilterRules.added_right_iff.mp fun address added => ?_
      exact (right.reached block reference on address).mp ((holds address).mpr (.inr added))
    intro builds
    have read := FilterRules.added_right_iff.mpr (builds block zero found)
    constructor
    · intro block' reference' _ address
      obtain rfl := Option.some.inj (reference.symm.trans reference')
      rw [holds]
      constructor
      · rintro (base | added)
        · exact .inl base
        · exact read address added
      · rintro (base | selected)
        · exact .inl base
        · exact .inr (FilterRules.mem_added_of_selected selected)
    · intro absent
      rw [reference] at absent
      cases absent

theorem blockAt_append {blocks : List CBlock} {block : CBlock} (nHeight : Int) :
    FilterRules.blockAt (blocks ++ [block]) nHeight =
      if nHeight = blocks.length then some block else FilterRules.blockAt blocks nHeight := by
  unfold FilterRules.blockAt
  by_cases negative : nHeight < 0
  · rw [if_pos negative, if_pos negative, if_neg (by omega)]
  rw [if_neg negative, if_neg negative]
  by_cases top : nHeight = blocks.length
  · rw [if_pos top, List.getElem?_append_right (by omega),
      show nHeight.toNat - blocks.length = 0 by omega]
    rfl
  rw [if_neg top]
  by_cases below : nHeight.toNat < blocks.length
  · rw [List.getElem?_append_left below]
  · rw [List.getElem?_eq_none (by rw [length_append, length_singleton]; omega),
      List.getElem?_eq_none (by omega)]

theorem blockAt_eq_none {blocks : List CBlock} {nHeight : Int}
    (above : (blocks.length : Int) ≤ nHeight) : FilterRules.blockAt blocks nHeight = none := by
  unfold FilterRules.blockAt
  rw [if_neg (by omega), List.getElem?_eq_none (by omega)]

/-- A filter that is off is right: it was cleared or never filled. -/
theorem Tracks.filterRight (tracks : Tracks rules node)
    (off : node.txFilter.txFilterState = false) : FilterRight rules node := by
  refine ⟨fun block _ on => ?_, fun _ address holds => tracks.off off address holds⟩
  rw [off] at on
  cases on

/-- The filter of a node whose target block stays as it is. -/
theorem FilterRight.of_reference {node' : FilterNode} (right : FilterRight rules node)
    (reference : node'.reference = node.reference) (filter : node'.txFilter = node.txFilter)
    (sporkValue : node'.sporkValue = node.sporkValue) : FilterRight rules node' := by
  constructor
  · intro block found on address
    rw [reference] at found
    rw [filter] at on
    unfold Holds
    rw [filter, sporkValue]
    exact right.reached block found on address
  · intro absent address holds
    rw [reference] at absent
    unfold Holds at holds
    rw [filter] at holds
    exact right.below absent address holds

/-- A filter that is on with the base addresses only is right for a target block exactly where the
block adds nothing. -/
theorem filterRight_iff_addsNothing {block : CBlock} (reference : node.reference = some block)
    (on : node.txFilter.txFilterState = true)
    (holds : ∀ address, node.Holds address ↔ rules.Base address) :
    FilterRight rules node ↔ AddsNothing rules (FilterRules.maskOf node.sporkValue) block := by
  constructor
  · intro right address selected
    exact (holds address).mp ((right.reached block reference on address).mpr (.inr selected))
  intro adds
  constructor
  · intro block' reference' _ address
    obtain rfl := Option.some.inj (reference.symm.trans reference')
    rw [holds]
    constructor
    · exact .inl
    · rintro (base | selected)
      · exact base
      · exact adds address selected
  · intro absent
    rw [reference] at absent
    cases absent

/-- What connecting a block does to the filter: a filter that is off may be cleared. -/
theorem filterAfterConnect_cases (tracks : Tracks rules node) :
    filterAfterConnect (node.connectEnv rules) node.blocks.length node.txFilter = node.txFilter ∨
      (node.txFilter.txFilterState = false ∧
        filterAfterConnect (node.connectEnv rules) node.blocks.length node.txFilter =
          ⟨false, node.txFilter.txFilterTarget, rules.base⟩) := by
  unfold filterAfterConnect
  by_cases due : (!node.txFilter.txFilterState &&
      decide (node.txFilter.txFilterTarget > node.blocks.length)) = true
  · rw [if_pos due]
    simp only [Bool.and_eq_true, Bool.not_eq_eq_eq_not, Bool.not_true, decide_eq_true_eq] at due
    obtain ⟨off, above⟩ := due
    have target : node.txFilter.txFilterTarget = FilterRules.targetOf node.sporkValue := by
      rcases tracks.target with target | ⟨-, zero⟩
      · exact target
      · omega
    refine .inr ⟨off, ?_⟩
    show rules.buildTxFilter node.blocks node.sporkValue node.txFilter = _
    rw [FilterRules.buildTxFilter_of_none (by omega) (blockAt_eq_none (by omega)), off, target]
  · rw [if_neg due]
    exact .inl rfl

theorem filterAfterDisconnect_eq (nHeight : Int) :
    filterAfterDisconnect (node.connectEnv rules) nHeight node.txFilter =
      if node.txFilter.txFilterState = true ∧ node.txFilter.txFilterTarget > nHeight then
        ⟨false, node.txFilter.txFilterTarget, rules.base⟩
      else node.txFilter := by
  unfold filterAfterDisconnect
  simp only [Bool.and_eq_true, decide_eq_true_eq]
  rfl

theorem tracks_cleared {node' : FilterNode} (tracks : Tracks rules node)
    (sporkValue : node'.sporkValue = node.sporkValue)
    (filter : node'.txFilter = ⟨false, node.txFilter.txFilterTarget, rules.base⟩) :
    Tracks rules node' := by
  refine ⟨?_, fun on => ?_, fun _ address holds => ?_⟩
  · rw [filter, sporkValue]
    rcases tracks.target with target | ⟨-, zero⟩
    · exact .inl target
    · exact .inr ⟨rfl, zero⟩
  · rw [filter] at on
    cases on
  · unfold Holds at holds
    rw [filter] at holds
    exact holds

theorem tracks_of_filter {node' : FilterNode} (tracks : Tracks rules node)
    (sporkValue : node'.sporkValue = node.sporkValue)
    (filter : node'.txFilter = node.txFilter) : Tracks rules node' := by
  cases node
  cases node'
  subst sporkValue filter
  exact ⟨tracks.target, tracks.on, tracks.off⟩

/-- What every step keeps. -/
theorem tracks_step (tracks : Tracks rules node) (a : FilterStep) :
    Tracks rules (node.step rules a) := by
  cases a with
  | connect block =>
    rcases filterAfterConnect_cases tracks with same | ⟨-, cleared⟩
    · exact tracks_of_filter tracks rfl same
    · exact tracks_cleared tracks rfl cleared
  | disconnect =>
    unfold step
    by_cases empty : node.blocks.isEmpty = true
    · simpa only [empty, if_true] using tracks
    simp only [empty, Bool.false_eq_true, if_false]
    rw [filterAfterDisconnect_eq]
    by_cases clears : node.txFilter.txFilterState = true ∧
        node.txFilter.txFilterTarget > (node.blocks.length : Int) - 1
    · rw [if_pos clears]
      exact tracks_cleared tracks rfl rfl
    · rw [if_neg clears]
      exact tracks_of_filter tracks rfl rfl
  | executeSpork sporkValue => exact tracks_rebuilt sporkValue
  | syncFinished =>
    unfold step
    cases state : node.txFilter.txFilterState with
    | true => simpa only [state, if_true] using tracks
    | false => exact tracks_rebuilt node.sporkValue

theorem reference_connect {block : CBlock}
    (same : (node.step rules (.connect block)).txFilter = node.txFilter) :
    (node.step rules (.connect block)).reference = if node.txFilter.txFilterTarget = 0 then none
      else if node.txFilter.txFilterTarget = node.blocks.length then some block
      else FilterRules.blockAt node.blocks node.txFilter.txFilterTarget := by
  unfold FilterNode.reference
  rw [same]
  exact if_congr Iff.rfl rfl (blockAt_append _)

theorem reference_of_tip {below : List CBlock} {tip : CBlock} (blocks : node.blocks = below ++ [tip]) :
    node.reference = if node.txFilter.txFilterTarget = 0 then none
      else if node.txFilter.txFilterTarget = below.length then some tip
      else FilterRules.blockAt below node.txFilter.txFilterTarget := by
  unfold FilterNode.reference
  rw [blocks]
  exact if_congr Iff.rfl rfl (blockAt_append _)

theorem step_disconnect {below : List CBlock} {tip : CBlock}
    (blocks : node.blocks = below ++ [tip]) :
    node.step rules .disconnect =
      { node with
        blocks := below
        txFilter := if node.txFilter.txFilterState = true ∧
            node.txFilter.txFilterTarget > below.length then
          ⟨false, node.txFilter.txFilterTarget, rules.base⟩ else node.txFilter } := by
  have height : (node.blocks.length : Int) - 1 = below.length := by
    rw [blocks, length_append, length_singleton]
    omega
  unfold step
  rw [filterAfterDisconnect_eq, height, blocks]
  simp

/-- Connecting a block keeps the filter right exactly where the target block adds nothing. -/
theorem filterRight_connect (tracks : Tracks rules node) (right : FilterRight rules node)
    (block : CBlock) :
    FilterRight rules (node.step rules (.connect block)) ↔ StepRight rules node (.connect block) := by
  have next := tracks_step tracks (.connect block)
  cases state : node.txFilter.txFilterState with
  | false =>
    have off : (node.step rules (.connect block)).txFilter.txFilterState = false := by
      rcases filterAfterConnect_cases tracks with same | ⟨-, cleared⟩
      · exact (congrArg TxFilter.txFilterState same).trans state
      · exact congrArg TxFilter.txFilterState cleared
    refine ⟨fun _ on => ?_, fun _ => next.filterRight off⟩
    rw [state] at on
    cases on
  | true =>
    have same : (node.step rules (.connect block)).txFilter = node.txFilter := by
      rcases filterAfterConnect_cases tracks with same | ⟨off, -⟩
      · exact same
      · rw [state] at off
        cases off
    have reference := reference_connect same
    by_cases reaches : node.txFilter.txFilterTarget ≠ 0 ∧
        node.txFilter.txFilterTarget = node.blocks.length
    · obtain ⟨target, top⟩ := reaches
      rw [if_neg target, if_pos top] at reference
      have absent : node.reference = none := by
        unfold FilterNode.reference
        rw [if_neg target, blockAt_eq_none (by omega)]
      have holds : ∀ address,
          (node.step rules (.connect block)).Holds address ↔ rules.Base address := by
        intro address
        unfold Holds
        rw [same]
        exact ⟨right.below absent address, tracks.on state address⟩
      have on : (node.step rules (.connect block)).txFilter.txFilterState = true := by
        rw [same, state]
      rw [filterRight_iff_addsNothing reference on holds]
      exact ⟨fun adds _ _ _ => adds, fun fine => fine state target top⟩
    · refine ⟨fun _ _ target top => absurd ⟨target, top⟩ reaches, fun _ => ?_⟩
      refine right.of_reference ?_ same rfl
      rw [reference]
      unfold FilterNode.reference
      by_cases zero : node.txFilter.txFilterTarget = 0
      · rw [if_pos zero, if_pos zero]
      · rw [if_neg zero, if_neg zero, if_neg fun top => reaches ⟨zero, top⟩]

/-- Disconnecting the tip keeps the filter right exactly where the target block adds nothing. -/
theorem filterRight_disconnect (tracks : Tracks rules node) (right : FilterRight rules node) :
    FilterRight rules (node.step rules .disconnect) ↔ StepRight rules node .disconnect := by
  have next := tracks_step tracks .disconnect
  rcases eq_nil_or_concat node.blocks with empty | ⟨below, tip, blocks⟩
  · have still : node.step rules .disconnect = node := by
      unfold step
      simp only [empty, isEmpty_nil, if_true]
    rw [still]
    refine ⟨fun _ _ _ block found => ?_, fun _ => right⟩
    rw [empty] at found
    cases found
  rw [concat_eq_append] at blocks
  have height : (node.blocks.length : Int) - 1 = below.length := by
    rw [blocks, length_append, length_singleton]
    omega
  have step_eq := @step_disconnect rules node below tip blocks
  have getLast : node.blocks.getLast? = some tip := by
    rw [blocks]
    exact List.getLast?_concat
  cases state : node.txFilter.txFilterState with
  | false =>
    have off : (node.step rules .disconnect).txFilter.txFilterState = false := by
      rw [step_eq]
      simp only [state, Bool.false_eq_true, false_and, if_false]
    refine ⟨fun _ on => ?_, fun _ => next.filterRight off⟩
    rw [state] at on
    cases on
  | true =>
    by_cases above : node.txFilter.txFilterTarget > below.length
    · have off : (node.step rules .disconnect).txFilter.txFilterState = false := by
        rw [step_eq]
        simp only [state, above, and_self, if_true]
      refine ⟨fun _ _ _ block _ top => ?_, fun _ => next.filterRight off⟩
      omega
    have same : (node.step rules .disconnect).txFilter = node.txFilter := by
      rw [step_eq]
      simp only [above, and_false, if_false]
    have reference : (node.step rules .disconnect).reference =
        if node.txFilter.txFilterTarget = 0 then none
        else FilterRules.blockAt below node.txFilter.txFilterTarget := by
      unfold FilterNode.reference
      rw [same, step_eq]
    have before := reference_of_tip blocks
    by_cases leaves : node.txFilter.txFilterTarget ≠ 0 ∧ node.txFilter.txFilterTarget = below.length
    · obtain ⟨target, top⟩ := leaves
      rw [if_neg target, if_pos top] at before
      rw [if_neg target, blockAt_eq_none (by omega)] at reference
      constructor
      · intro right' _ _ block found _ address selected
        obtain rfl := Option.some.inj (getLast.symm.trans found)
        refine right'.below reference address ?_
        unfold Holds
        rw [same]
        exact (right.reached tip before state address).mpr (.inr selected)
      intro fine
      have adds := fine state target tip getLast (by omega)
      refine ⟨fun block found => ?_, fun _ address holds => ?_⟩
      · rw [reference] at found
        cases found
      unfold Holds at holds
      rw [same] at holds
      rcases (right.reached tip before state address).mp holds with base | selected
      · exact base
      · exact adds address selected
    · refine ⟨fun _ _ target _ _ top => absurd ⟨target, by omega⟩ leaves, fun _ => ?_⟩
      refine right.of_reference ?_ same (by rw [step_eq])
      rw [reference, before]
      by_cases zero : node.txFilter.txFilterTarget = 0
      · rw [if_pos zero, if_pos zero]
      · rw [if_neg zero, if_neg zero, if_neg fun top => leaves ⟨zero, top⟩]

/-- A step keeps the filter right exactly where it meets its condition. -/
theorem filterRight_step (tracks : Tracks rules node) (right : FilterRight rules node)
    (a : FilterStep) : FilterRight rules (node.step rules a) ↔ StepRight rules node a := by
  cases a with
  | connect block => exact filterRight_connect tracks right block
  | disconnect => exact filterRight_disconnect tracks right
  | executeSpork sporkValue => exact filterRight_rebuilt sporkValue
  | syncFinished =>
    unfold step StepRight
    cases state : node.txFilter.txFilterState with
    | true => simpa only [state, if_true, Bool.true_eq_false, false_implies, iff_true] using right
    | false =>
      simp only [Bool.false_eq_true, if_false, true_implies]
      exact filterRight_rebuilt node.sporkValue

end FilterNode

end Esbcoin
