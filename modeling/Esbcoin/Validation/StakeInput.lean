import Esbcoin.Coins.Outputs
import Esbcoin.Validation.GetTransaction
import Esbcoin.Validation.NoOverwrite
import Esbcoin.Validation.StakeSpent

/-!
# The stake input check of a new block

`ProcessNewBlock` rejects a proof-of-stake block whose coinstake spends what is not there
(`src/main.cpp:3679-3708`). It looks at the outputs that are unspent at the tip and at the recent
spends of the active chain, not at the chain of the block. What is unspent there is what that chain
has made and not spent (`AcceptedChain.isUnspent_iff`), on either side of a fork, and the recent
spends are those of the active chain at some of its heights.
-/

namespace Esbcoin

open UndoLog CoinStep List

/-! ## The check -/

/-- The tables the check reads. -/
structure StakeTables where
  /-- `GetTransaction` looks here, and `pcoinsTip` is a part of it. -/
  source : TxSource
  chainActive : CChain
  mapBlockIndex : BlockMap
  mapStakeSpent : AssocMap COutPoint Int

/-- The age of a stake that is spent at the tip (`main.cpp:3690-3706`). -/
def checkSpentStakeAge (tables : StakeTables) (proofOfStake : COutPoint × UInt32) :
    Except Failure Unit :=
  match getTransaction tables.source tables.chainActive proofOfStake.1.hash true with
  | none => .error (.invalid { level := 100 })
  | some (_, hashBlockPrev) =>
    match tables.mapBlockIndex.lookup hashBlockPrev with
    | none => .error (.invalid { level := 100 })
    | some pindex =>
      rejectIf (pindex.nTime + nStakeMinAge > proofOfStake.2) (.invalid { level := 100 })

/-- The stake input check of `ProcessNewBlock` (`main.cpp:3679-3708`). -/
def checkStakeInput (tables : StakeTables) (block : CBlock) : Except Failure Unit :=
  match block.isProofOfStake, block.vtx with
  | true, _ :: coinStake :: _ =>
    if tables.source.pcoinsTip.haveInputs coinStake then .ok ()
    else
      match tables.mapStakeSpent.lookup block.getProofOfStake.1 with
      | none => .error (.invalid { level := 100 })
      | some _ => checkSpentStakeAge tables block.getProofOfStake
  | _, _ => .ok ()

/-! ## The outputs of a chain -/

/-- The transactions of blocks from a height on, with their heights; those of the block at height 0
are not put in (`main.cpp:2191-2196`). -/
def numberedTxs : Nat → List CBlock → List (CTransaction × Int)
  | _, [] => []
  | nHeight, block :: rest =>
    (if nHeight = 0 then [] else block.vtx.map (·, (nHeight : Int))) ++
      numberedTxs (nHeight + 1) rest

theorem chainSteps_eq (nHeight : Nat) (vBlocks : List CBlock) :
    chainSteps nHeight vBlocks =
      (numberedTxs nHeight vBlocks).flatMap fun (tx, height) => coinSteps tx height := by
  induction vBlocks generalizing nHeight with
  | nil => rfl
  | cons block rest ih =>
    rw [chainSteps, numberedTxs, flatMap_append, ih]
    congr 1
    split
    · rfl
    · rw [flatMap_map]

theorem numberedTxs_append (nHeight : Nat) (first second : List CBlock) :
    numberedTxs nHeight (first ++ second) =
      numberedTxs nHeight first ++ numberedTxs (nHeight + first.length) second := by
  induction first generalizing nHeight with
  | nil => rfl
  | cons block first ih =>
    have next : nHeight + (block :: first).length = nHeight + 1 + first.length := by
      rw [length_cons]
      omega
    rw [cons_append, numberedTxs, numberedTxs, ih, append_assoc, next]

/-- A block has passed the checks of `AcceptBlock` at a height: it starts with a coinbase that
starts with the height, and its other transactions have inputs. -/
def AcceptedAt (nHeight : Nat) (block : CBlock) : Prop :=
  nHeight < 2 ^ 31 ∧ ∃ coinBase vtx, block.vtx = coinBase :: vtx ∧ coinBase.isCoinBase = true ∧
    StartsWithHeight coinBase nHeight ∧ ∀ tx ∈ vtx, tx.isCoinBase = false ∧ tx.vin ≠ []

/-- Blocks that were accepted one behind the other, behind a block at height 0. -/
def AcceptedFrom : Nat → List CBlock → Prop
  | _, [] => True
  | nHeight, block :: rest =>
    (nHeight ≠ 0 → AcceptedAt nHeight block) ∧ AcceptedFrom (nHeight + 1) rest

variable {txs : List (CTransaction × Int)} {out : COutPoint}

theorem ledger_connectBlocks {nHeight : Nat} {view view' : FlatCoins} {vBlocks : List CBlock}
    (accepted : AcceptedFrom nHeight vBlocks)
    (connects : connectBlocks nHeight view vBlocks = some view') (leftBy : LeftBy view txs)
    (ledger : Ledger txs) (below : ∀ e ∈ txs, e.2 < nHeight) :
    Ledger (txs ++ numberedTxs nHeight vBlocks) := by
  induction vBlocks generalizing nHeight view txs with
  | nil => rwa [numberedTxs, append_nil]
  | cons block rest ih =>
    obtain ⟨here, later⟩ := accepted
    rw [connectBlocks] at connects
    rw [numberedTxs]
    have next : ∀ e ∈ txs, e.2 < (nHeight + 1 : Nat) := fun e member => by
      have := below e member
      omega
    by_cases genesis : nHeight = 0
    · rw [if_pos genesis] at connects
      rw [if_pos genesis, nil_append]
      exact ih later connects leftBy ledger next
    rw [if_neg genesis] at connects
    rw [if_neg genesis, ← append_assoc]
    obtain ⟨⟨middle, done⟩, executes, connects⟩ := Option.bind_eq_some_iff.mp connects
    obtain ⟨fits, coinBase, vtx, hvtx, isBase, starts, others⟩ := here genesis
    have whole : Ledger (txs ++ block.vtx.map (·, (nHeight : Int))) := by
      rw [hvtx] at executes ⊢
      simp only [execTransactions] at executes
      split at executes
      · cases executes
      rename_i view'' txundo first
      split at executes
      · cases executes
      rename_i last rest' laterExec
      have base : CoinBaseBehind txs coinBase nHeight :=
        ⟨isBase, starts, by omega, by omega, fun e member _ => below e member⟩
      have more := (ledger.coinBase base).execTransactions (leftBy.updateCoins first) others
        laterExec
      rwa [append_assoc] at more
    refine ih later connects (leftBy.execTransactions executes) whole fun e member => ?_
    rcases mem_append.mp member with member | member
    · exact next e member
    · obtain ⟨tx, -, rfl⟩ := mem_map.mp member
      exact Int.ofNat_lt.mpr (Nat.lt_succ_self nHeight)

/-! ## Made and spent -/

/-- An output of one of these transactions. -/
def MadeBy (txs : List (CTransaction × Int)) (out : COutPoint) : Prop :=
  ∃ e ∈ txs, e.1.getHash = out.hash ∧ (CCoins.fromTx e.1 e.2).isAvailable out.n = true

/-- One of these transactions spends the output. -/
def SpentBy (txs : List (CTransaction × Int)) (out : COutPoint) : Prop :=
  ∃ e ∈ txs, e.1.isCoinBase = false ∧ out ∈ e.1.prevouts

theorem madeBy_append {first second : List (CTransaction × Int)} :
    MadeBy (first ++ second) out ↔ MadeBy first out ∨ MadeBy second out := by
  simp only [MadeBy, mem_append, or_and_right, exists_or]

theorem spentBy_append {first second : List (CTransaction × Int)} :
    SpentBy (first ++ second) out ↔ SpentBy first out ∨ SpentBy second out := by
  simp only [SpentBy, mem_append, or_and_right, exists_or]

theorem mem_numberedTxs {k i : Nat} {vBlocks : List CBlock} {block : CBlock} {tx : CTransaction}
    (here : vBlocks[i]? = some block) (behind : k + i ≠ 0) (member : tx ∈ block.vtx) :
    (tx, ((k + i : Nat) : Int)) ∈ numberedTxs k vBlocks := by
  induction vBlocks generalizing k i with
  | nil => cases here
  | cons first rest ih =>
    rw [numberedTxs, mem_append]
    cases i with
    | zero =>
      obtain rfl := Option.some.inj here
      have behind : k ≠ 0 := behind
      rw [if_neg behind]
      exact Or.inl (mem_map_of_mem member)
    | succ i =>
      right
      rw [show k + (i + 1) = k + 1 + i by omega] at behind ⊢
      exact ih here behind

/-- What `SpentAt` says of a chain, in its transactions. -/
theorem SpentAt.spentBy {blocks : UInt256 → CBlock} {chain : CChain} {nHeight : Int}
    {vBlocks : List CBlock} (spent : SpentAt blocks chain out nHeight)
    (listed : chain.vChain.map blocks = vBlocks)
    (genesis : ∀ block ∈ vBlocks.head?, block.spentOutPoints = []) :
    SpentBy (numberedTxs 0 vBlocks) out := by
  obtain ⟨i, hash, -, here, uses⟩ := spent
  have place : vBlocks[i]? = some (blocks hash) := by
    rw [← listed, List.getElem?_map, here]
    rfl
  have behind : 0 + i ≠ 0 := by
    intro first
    obtain rfl : i = 0 := by omega
    rw [genesis (blocks hash) (List.head?_eq_getElem? ▸ place)] at uses
    cases uses
  obtain ⟨tx, member, uses⟩ := mem_flatMap.mp uses
  obtain ⟨member, notBase⟩ := mem_filter.mp member
  exact ⟨_, mem_numberedTxs place behind member, by simpa using notBase, uses⟩

/-- With one more transaction. -/
theorem Ledger.Sound.unspentAfter_snoc_iff {tx : CTransaction} {nHeight : Int}
    (sound : Ledger.Sound txs) (injective : HashInjective ((txs ++ [(tx, nHeight)]).map Prod.fst))
    (behind : CoinBaseBehind txs tx nHeight ∨ SpendsBehind txs tx)
    (before : unspentAfter txs out = true ↔ MadeBy txs out ∧ ¬ SpentBy txs out) :
    unspentAfter (txs ++ [(tx, nHeight)]) out = true ↔
      MadeBy (txs ++ [(tx, nHeight)]) out ∧ ¬ SpentBy (txs ++ [(tx, nHeight)]) out := by
  have fresh := sound.fresh injective behind
  have madeHere : MadeBy [(tx, nHeight)] out ↔
      tx.getHash = out.hash ∧ (CCoins.fromTx tx nHeight).isAvailable out.n = true := by
    simp [MadeBy]
  have spentHere : SpentBy [(tx, nHeight)] out ↔ tx.isCoinBase = false ∧ out ∈ tx.prevouts := by
    simp [SpentBy]
  rw [unspentAfter_snoc, leftUnspent_coinSteps, madeBy_append, spentBy_append, madeHere, spentHere]
  by_cases own : tx.getHash = out.hash
  · -- the output is its own, and nothing before it has made or spent it
    have noId : ∀ e ∈ txs, e.1.getHash ≠ out.hash := fun e member => own ▸ fresh e member
    have unmade : ¬ MadeBy txs out := fun ⟨e, member, hash, _⟩ => noId e member hash
    have unspent : ¬ SpentBy txs out := fun ⟨e, member, notBase, uses⟩ => by
      obtain ⟨-, made, member', hash⟩ := sound.spent e member notBase out uses
      exact noId made member' hash
    have notSelf : ¬ (tx.isCoinBase = false ∧ out ∈ tx.prevouts) := fun ⟨notBase, uses⟩ => by
      rcases behind with base | spending
      · rw [base.isBase] at notBase
        cases notBase
      · obtain ⟨e, member, hash⟩ := sound.made out (spending.available out uses)
        exact noId e member hash
    simp [own, unmade, unspent, notSelf]
  · rw [if_neg own, Bool.and_eq_true, before]
    cases isBase : tx.isCoinBase <;> simp [own, and_assoc, not_or]

theorem Ledger.unspentAfter_iff (ledger : Ledger txs) (injective : HashInjective (txs.map Prod.fst))
    : unspentAfter txs out = true ↔ MadeBy txs out ∧ ¬ SpentBy txs out := by
  induction ledger with
  | nil => simp [unspentAfter, leftUnspent, MadeBy]
  | coinBase before behind ih =>
    exact (before.sound injective.of_append).unspentAfter_snoc_iff injective (Or.inl behind)
      (ih injective.of_append)
  | spends before behind ih =>
    exact (before.sound injective.of_append).unspentAfter_snoc_iff injective (Or.inr behind)
      (ih injective.of_append)

/-- A chain of accepted blocks that were connected, and the view it leaves. No two of its
transactions have one hash. -/
structure AcceptedChain (vBlocks : List CBlock) where
  view : FlatCoins
  connects : connectBlocks 0 FlatCoins.empty vBlocks = some view
  accepted : AcceptedFrom 0 vBlocks
  injective : HashInjective ((numberedTxs 0 vBlocks).map Prod.fst)

theorem AcceptedChain.isUnspent_iff {vBlocks : List CBlock} (chain : AcceptedChain vBlocks)
    (out : COutPoint) : chain.view.isUnspent out = true ↔
      MadeBy (numberedTxs 0 vBlocks) out ∧ ¬ SpentBy (numberedTxs 0 vBlocks) out := by
  have ledger := ledger_connectBlocks chain.accepted chain.connects (fun _ => rfl) Ledger.nil
    fun _ member => by cases member
  rw [isUnspent_connectBlocks chain.connects, chainSteps_eq]
  exact ledger.unspentAfter_iff chain.injective

/-- What is unspent behind two parts of a chain. -/
theorem AcceptedChain.isUnspent_append_iff {common side : List CBlock}
    (chain : AcceptedChain (common ++ side)) (out : COutPoint) :
    chain.view.isUnspent out = true ↔
      (MadeBy (numberedTxs 0 common) out ∨ MadeBy (numberedTxs common.length side) out) ∧
        ¬ SpentBy (numberedTxs 0 common) out ∧ ¬ SpentBy (numberedTxs common.length side) out := by
  rw [chain.isUnspent_iff, numberedTxs_append, madeBy_append, spentBy_append, not_or, Nat.zero_add]

/-! ## The check and the fork -/

/-- A node with a block to check: the active chain and the ancestors of the block part behind
`common`, and the map holds the spends of the active chain at the heights of a cover. -/
structure ForkedNode where
  common : List CBlock
  active : List CBlock
  branch : List CBlock
  activeChain : AcceptedChain (common ++ active)
  parentChain : AcceptedChain (common ++ branch)
  tables : StakeTables
  pcoinsTip : tables.source.pcoinsTip = activeChain.view
  blocks : UInt256 → CBlock
  listed : tables.chainActive.vChain.map blocks = common ++ active
  genesis : ∀ block ∈ (common ++ active).head?, block.spentOutPoints = []
  cover : Int → Prop
  holds : HoldsSpends blocks tables.chainActive tables.mapStakeSpent cover

namespace ForkedNode

variable (node : ForkedNode)

/-- The transactions of the common blocks. -/
def commonTxs : List (CTransaction × Int) := numberedTxs 0 node.common

/-- The transactions of the active chain behind the fork. -/
def activeTxs : List (CTransaction × Int) := numberedTxs node.common.length node.active

/-- The transactions of the block's ancestors behind the fork. -/
def branchTxs : List (CTransaction × Int) := numberedTxs node.common.length node.branch

/-- The active chain makes the output. -/
def MadeAtTip (out : COutPoint) : Prop := MadeBy node.commonTxs out ∨ MadeBy node.activeTxs out

/-- The chain of the block makes the output. -/
def MadeForBlock (out : COutPoint) : Prop := MadeBy node.commonTxs out ∨ MadeBy node.branchTxs out

/-- The inputs of the coinstake behind the first are made and not spent by the active chain. -/
def OthersAtTip (block : CBlock) : Prop :=
  ∀ coinStake ∈ block.vtx[1]?, ∀ out ∈ coinStake.prevouts.tail,
    node.MadeAtTip out ∧ ¬ SpentBy node.commonTxs out ∧ ¬ SpentBy node.activeTxs out

/-- The transaction of the stake is found in a block that is old enough. -/
def OldEnough (block : CBlock) : Prop :=
  ∃ txPrev hashBlockPrev pindex,
    getTransaction node.tables.source node.tables.chainActive block.getProofOfStake.1.hash true =
      some (txPrev, hashBlockPrev) ∧
    node.tables.mapBlockIndex.lookup hashBlockPrev = some pindex ∧
    ¬ pindex.nTime + nStakeMinAge > block.getProofOfStake.2

/-- The active chain spends the stake at a height that is covered, and it is old enough. -/
def Remembered (block : CBlock) : Prop :=
  (∃ nHeight, SpentAt node.blocks node.tables.chainActive block.getProofOfStake.1 nHeight ∧
    node.cover nHeight) ∧ node.OldEnough block

/-- Where the stake may be made and spent for the check to be right. -/
structure Decides (block : CBlock) : Prop where
  /-- A spend before the fork is not remembered. -/
  before : SpentBy node.commonTxs block.getProofOfStake.1 → ¬ node.Remembered block
  /-- A spend by the active chain alone is remembered. -/
  activeAlone : ¬ SpentBy node.commonTxs block.getProofOfStake.1 →
    SpentBy node.activeTxs block.getProofOfStake.1 →
    node.MadeForBlock block.getProofOfStake.1 → ¬ SpentBy node.branchTxs block.getProofOfStake.1 →
    node.Remembered block
  /-- A spend by both sides, or of what the active chain alone has made, is not. -/
  bothSides : ¬ SpentBy node.commonTxs block.getProofOfStake.1 →
    SpentBy node.activeTxs block.getProofOfStake.1 →
    ¬ node.MadeForBlock block.getProofOfStake.1 ∨ SpentBy node.branchTxs block.getProofOfStake.1 →
    ¬ node.Remembered block
  /-- What neither side spends is not made by the branch alone, and the other inputs are there. -/
  nowhere : ¬ SpentBy node.commonTxs block.getProofOfStake.1 →
    ¬ SpentBy node.activeTxs block.getProofOfStake.1 →
    node.MadeForBlock block.getProofOfStake.1 → ¬ SpentBy node.branchTxs block.getProofOfStake.1 →
    node.MadeAtTip block.getProofOfStake.1 ∧ node.OthersAtTip block
  /-- With what the branch alone spends, or the active chain alone has made, goes an input that is
  not there. -/
  branchAlone : ¬ SpentBy node.commonTxs block.getProofOfStake.1 →
    ¬ SpentBy node.activeTxs block.getProofOfStake.1 → node.MadeAtTip block.getProofOfStake.1 →
    ¬ node.MadeForBlock block.getProofOfStake.1 ∨ SpentBy node.branchTxs block.getProofOfStake.1 →
    ¬ node.OthersAtTip block

variable {node} {block : CBlock}

/-- A proof-of-stake block has a coinstake, which has an input. -/
theorem coinStake_of_isProofOfStake (stake : block.isProofOfStake = true) :
    ∃ coinBase coinStake vtx txin vin, block.vtx = coinBase :: coinStake :: vtx ∧
      coinStake.isCoinStake = true ∧ coinStake.vin = txin :: vin ∧
      block.getProofOfStake = (txin.prevout, block.nTime) := by
  have second := stake
  unfold CBlock.isProofOfStake at second
  split at second
  · rename_i coinBase coinStake vtx hvtx
    cases hvin : coinStake.vin with
    | nil =>
      unfold CTransaction.isCoinStake at second
      rw [hvin] at second
      cases second
    | cons txin vin =>
      refine ⟨coinBase, coinStake, vtx, txin, vin, hvtx, second, hvin, ?_⟩
      simp only [CBlock.getProofOfStake, stake, hvtx, hvin]
  · cases second

theorem haveInputs_iff (stake : block.isProofOfStake = true) {coinBase coinStake : CTransaction}
    {vtx : List CTransaction} (hvtx : block.vtx = coinBase :: coinStake :: vtx) :
    node.tables.source.pcoinsTip.haveInputs coinStake = true ↔
      (node.MadeAtTip block.getProofOfStake.1 ∧ ¬ SpentBy node.commonTxs block.getProofOfStake.1 ∧
        ¬ SpentBy node.activeTxs block.getProofOfStake.1) ∧ node.OthersAtTip block := by
  obtain ⟨_, _, _, txin, vin, hvtx', isStake, hvin, proof⟩ := coinStake_of_isProofOfStake stake
  obtain ⟨rfl, rest⟩ := List.cons.inj (hvtx.symm.trans hvtx')
  obtain ⟨rfl, rfl⟩ := List.cons.inj rest
  have others : node.OthersAtTip block ↔ ∀ out ∈ vin.map CTxIn.prevout,
      node.MadeAtTip out ∧ ¬ SpentBy node.commonTxs out ∧ ¬ SpentBy node.activeTxs out := by
    simp [OthersAtTip, hvtx, CTransaction.prevouts, hvin]
  have atTip := node.activeChain.isUnspent_append_iff
  rw [FlatCoins.haveInputs_iff (CTransaction.not_isCoinBase_of_isCoinStake isStake), node.pcoinsTip,
    CTransaction.prevouts, hvin, map_cons, forall_mem_cons, others, proof]
  exact and_congr (atTip _) (forall₂_congr fun out _ => atTip out)

theorem checkSpentStakeAge_ok_iff : checkSpentStakeAge node.tables block.getProofOfStake = .ok () ↔
    node.OldEnough block := by
  unfold checkSpentStakeAge OldEnough
  cases getTransaction node.tables.source node.tables.chainActive
      block.getProofOfStake.1.hash true with
  | none => simp
  | some found =>
    obtain ⟨txPrev, hashBlockPrev⟩ := found
    dsimp only
    cases entry : node.tables.mapBlockIndex.lookup hashBlockPrev with
    | none =>
      simp only [reduceCtorEq, false_iff]
      rintro ⟨_, _, pindex, equal, found, -⟩
      obtain ⟨-, rfl⟩ := Prod.mk.inj (Option.some.inj equal)
      rw [entry] at found
      cases found
    | some pindex =>
      rw [rejectIf_eq_ok, decide_eq_false_iff_not]
      constructor
      · exact fun aged => ⟨txPrev, hashBlockPrev, pindex, rfl, entry, aged⟩
      rintro ⟨_, _, pindex', equal, found, aged⟩
      obtain ⟨-, rfl⟩ := Prod.mk.inj (Option.some.inj equal)
      obtain rfl := Option.some.inj (entry.symm.trans found)
      exact aged

/-- What the check passes. -/
theorem checkStakeInput_ok_iff (stake : block.isProofOfStake = true) :
    checkStakeInput node.tables block = .ok () ↔
      ((node.MadeAtTip block.getProofOfStake.1 ∧ ¬ SpentBy node.commonTxs block.getProofOfStake.1 ∧
        ¬ SpentBy node.activeTxs block.getProofOfStake.1) ∧ node.OthersAtTip block) ∨
        node.Remembered block := by
  obtain ⟨coinBase, coinStake, vtx, -, -, hvtx, -⟩ := coinStake_of_isProofOfStake stake
  unfold checkStakeInput
  rw [← haveInputs_iff stake hvtx, stake, hvtx]
  dsimp only
  by_cases tip : node.tables.source.pcoinsTip.haveInputs coinStake = true
  · simp [tip]
  rw [if_neg tip]
  simp only [tip, false_or, Bool.false_eq_true]
  cases held : node.tables.mapStakeSpent.lookup block.getProofOfStake.1 with
  | none =>
    simp only [reduceCtorEq, false_iff]
    rintro ⟨⟨nHeight, spent⟩, -⟩
    rw [(node.holds _ nHeight).mpr spent] at held
    cases held
  | some nHeight =>
    rw [checkSpentStakeAge_ok_iff]
    exact ⟨fun aged => ⟨⟨nHeight, (node.holds _ nHeight).mp held⟩, aged⟩, And.right⟩

theorem Remembered.spent (remembered : node.Remembered block) :
    SpentBy node.commonTxs block.getProofOfStake.1 ∨
      SpentBy node.activeTxs block.getProofOfStake.1 := by
  obtain ⟨⟨nHeight, spent, -⟩, -⟩ := remembered
  have spent := spent.spentBy node.listed node.genesis
  rwa [numberedTxs_append, spentBy_append, Nat.zero_add] at spent

/-- The check passes exactly the blocks whose stake is unspent behind their parent if and only if
the stake is made and spent where the check looks. -/
theorem stakeInput_decided_iff (node : ForkedNode) (block : CBlock)
    (stake : block.isProofOfStake = true) :
    (checkStakeInput node.tables block = .ok () ↔
      node.parentChain.view.isUnspent block.getProofOfStake.1 = true) ↔ node.Decides block := by
  have forBlock : node.parentChain.view.isUnspent block.getProofOfStake.1 = true ↔
      node.MadeForBlock block.getProofOfStake.1 ∧
        ¬ SpentBy node.commonTxs block.getProofOfStake.1 ∧
          ¬ SpentBy node.branchTxs block.getProofOfStake.1 :=
    node.parentChain.isUnspent_append_iff _
  rw [checkStakeInput_ok_iff stake, forBlock]
  constructor
  · intro agree
    constructor
    · exact fun early remembered => (agree.mp (Or.inr remembered)).2.1 early
    · exact fun early late made left =>
        (agree.mpr ⟨made, early, left⟩).resolve_left fun atTip => atTip.1.2.2 late
    · intro _ _ gone remembered
      obtain ⟨made, -, left⟩ := agree.mp (Or.inr remembered)
      exact gone.elim (fun unmade => unmade made) left
    · intro early late made left
      rcases agree.mpr ⟨made, early, left⟩ with atTip | remembered
      · exact ⟨atTip.1.1, atTip.2⟩
      · exact absurd remembered.spent (not_or.mpr ⟨early, late⟩)
    · intro early late atTip gone others
      obtain ⟨made, -, left⟩ := agree.mp (Or.inl ⟨⟨atTip, early, late⟩, others⟩)
      exact gone.elim (fun unmade => unmade made) left
  · intro decides
    constructor
    · rintro (⟨⟨atTip, early, late⟩, others⟩ | remembered)
      · have kept : node.MadeForBlock block.getProofOfStake.1 ∧
            ¬ SpentBy node.branchTxs block.getProofOfStake.1 := by
          by_contra gone
          exact decides.branchAlone early late atTip ((not_and_or.mp gone).imp_right not_not.mp) others
        exact ⟨kept.1, early, kept.2⟩
      have early := fun spent => decides.before spent remembered
      have late := remembered.spent.resolve_left early
      have kept : node.MadeForBlock block.getProofOfStake.1 ∧
          ¬ SpentBy node.branchTxs block.getProofOfStake.1 := by
        by_contra gone
        exact decides.bothSides early late ((not_and_or.mp gone).imp_right not_not.mp) remembered
      exact ⟨kept.1, early, kept.2⟩
    · rintro ⟨made, early, left⟩
      by_cases late : SpentBy node.activeTxs block.getProofOfStake.1
      · exact Or.inr (decides.activeAlone early late made left)
      · obtain ⟨atTip, others⟩ := decides.nowhere early late made left
        exact Or.inl ⟨⟨atTip, early, late⟩, others⟩

end ForkedNode

/-! ## A stake that the tip has spent -/

/-- Blocks of a coinbase that pays out 250 COIN; the one at height 17 spends the coinbase of
height 1. -/
def paidBlock (h : Nat) : CBlock :=
  { coinBaseBlock h with
    vtx := [⟨BitVec.ofNat 256 (h + 100), 1,
        [{ prevout := COutPoint.null, scriptSig := CScript.pushInt64 h ++ [0] }],
        [⟨250 * COIN, [0x51]⟩], 0, []⟩] ++
      if h = 17 then [⟨900, 1, [{ prevout := ⟨101, 0⟩ }], [⟨250 * COIN, [0x51]⟩], 0, []⟩] else [] }

def paidBlocks (n : Nat) : List CBlock := (List.range' 0 n).map paidBlock

theorem acceptedFrom_range {f : Nat → CBlock} {k n : Nat}
    (each : ∀ i, i ≠ 0 → i < k + n → AcceptedAt i (f i)) :
    AcceptedFrom k ((List.range' k n).map f) := by
  induction n generalizing k with
  | zero => trivial
  | succ n ih =>
    exact ⟨fun behind => each k behind (by omega),
      ih fun i behind below => each i behind (by omega)⟩

theorem paidBlocks_accepted {n : Nat} (few : n < 2 ^ 31) : AcceptedFrom 0 (paidBlocks n) := by
  refine acceptedFrom_range fun i _ below => ⟨by omega, _, _, rfl, rfl, ⟨_, _, _, rfl, rfl⟩, ?_⟩
  intro tx member
  split at member
  · obtain rfl := mem_singleton.mp member
    exact ⟨rfl, by simp⟩
  · cases member

theorem paidBlocks_connect :
    (connectBlocks 0 FlatCoins.empty (paidBlocks 18)).isSome = true := by decide +kernel

theorem paidBlocks_connect_seventeen :
    (connectBlocks 0 FlatCoins.empty (paidBlocks 17)).isSome = true := by decide +kernel

/-- The chain up to height 17. -/
def paidChain : AcceptedChain (paidBlocks 18) where
  view := (connectBlocks 0 FlatCoins.empty (paidBlocks 18)).get paidBlocks_connect
  connects := by rw [Option.some_get]
  accepted := paidBlocks_accepted (by decide)
  injective := by
    unfold HashInjective
    decide +kernel

/-- The chain up to height 16. -/
def unpaidChain : AcceptedChain (paidBlocks 17) where
  view := (connectBlocks 0 FlatCoins.empty (paidBlocks 17)).get paidBlocks_connect_seventeen
  connects := by rw [Option.some_get]
  accepted := paidBlocks_accepted (by decide)
  injective := by
    unfold HashInjective
    decide +kernel

def paidTables : StakeTables where
  source :=
    { mempool := ∅
      fTxIndex := true
      txIndex := (∅ : AssocMap UInt256 CDiskTxPos).insert 101 ⟨none, 1⟩
      readTx := fun _ => (paidBlock 1).vtx.head?.map fun tx => (2, tx)
      readBlockFromDisk := fun _ => none
      pcoinsTip := paidChain.view }
  chainActive := straightChain 18
  mapBlockIndex := straightMap 18 eighteen_small
  mapStakeSpent := (∅ : AssocMap COutPoint Int).insert ⟨101, 0⟩ 17

def paidBlockOf (hash : UInt256) : CBlock := paidBlock (hash.toNat - 1)

theorem straightChain_paid : (straightChain 18).vChain.map paidBlockOf = paidBlocks 18 := by
  decide +kernel

theorem spentAt_paid {out : COutPoint} {nHeight : Int} :
    SpentAt paidBlockOf (straightChain 18) out nHeight ↔ out = ⟨101, 0⟩ ∧ nHeight = 17 := by
  constructor
  · rintro ⟨i, hash, rfl, here, uses⟩
    have place : (paidBlocks 18)[i]? = some (paidBlockOf hash) := by
      rw [← straightChain_paid, List.getElem?_map, here]
      rfl
    rw [paidBlocks, List.getElem?_map] at place
    obtain ⟨h, place, block⟩ := Option.map_eq_some_iff.mp place
    obtain ⟨below, rfl⟩ := List.getElem?_eq_some_iff.mp place
    rw [getElem_range', Nat.zero_add, Nat.one_mul] at block
    rw [← block] at uses
    by_cases last : i = 17
    · subst last
      exact ⟨mem_singleton.mp uses, rfl⟩
    have none : (paidBlock i).spentOutPoints = [] := by
      rw [paidBlock, if_neg last]
      rfl
    rw [none] at uses
    cases uses
  · rintro ⟨rfl, rfl⟩
    exact ⟨17, 18, rfl, by decide, by decide⟩

theorem paidTables_holds :
    HoldsSpends paidBlockOf (straightChain 18) paidTables.mapStakeSpent (0 ≤ ·) := by
  intro out nHeight
  rw [spentAt_paid, paidTables, AssocMap.lookup_insert_eq]
  by_cases paid : out = ⟨101, 0⟩
  · rw [if_pos paid]
    constructor
    · intro found
      obtain rfl := Option.some.inj found
      exact ⟨⟨paid, rfl⟩, by decide⟩
    · rintro ⟨⟨-, rfl⟩, -⟩
      rfl
  · rw [if_neg paid]
    exact ⟨fun found => (by cases found), fun spent => absurd spent.1.1 paid⟩

theorem paidBlocks_genesis : ∀ block ∈ (paidBlocks 18).head?, block.spentOutPoints = [] := by
  rintro _ ⟨⟩
  rfl

/-- A node at the end of the chain, with a block to check that extends it. -/
def paidNode : ForkedNode where
  common := paidBlocks 18
  active := []
  branch := []
  activeChain := paidChain
  parentChain := paidChain
  tables := paidTables
  pcoinsTip := rfl
  blocks := paidBlockOf
  listed := straightChain_paid
  genesis := paidBlocks_genesis
  cover := (0 ≤ ·)
  holds := paidTables_holds

/-- The same node, with a block to check that extends the block at height 16. -/
def forkedNode : ForkedNode where
  common := paidBlocks 17
  active := [paidBlock 17]
  branch := []
  activeChain := paidChain
  parentChain := unpaidChain
  tables := paidTables
  pcoinsTip := rfl
  blocks := paidBlockOf
  listed := straightChain_paid
  genesis := paidBlocks_genesis
  cover := (0 ≤ ·)
  holds := paidTables_holds

/-- A block behind the one at height `h - 1` that stakes the output of the coinbase of height 1. -/
def restakeAt (h : Nat) : CBlock :=
  { coinBaseBlock h with
    nTime := 1600020000
    vtx := [⟨h + 100, 1, [{ prevout := COutPoint.null, scriptSig := CScript.pushInt64 h ++ [0] }],
        [⟨0, []⟩], 0, []⟩,
      ⟨901, 1, [{ prevout := ⟨101, 0⟩ }], [⟨0, []⟩, ⟨250 * COIN, [0x51]⟩], 0, []⟩] }

/-- The active chain alone spends the stake, behind the fork, and the block passes rightly. -/
theorem forked_stake_passes :
    checkStakeInput forkedNode.tables (restakeAt 17) = .ok () ∧
      forkedNode.parentChain.view.isUnspent (restakeAt 17).getProofOfStake.1 = true := by
  have passes : checkStakeInput forkedNode.tables (restakeAt 17) = .ok () := by decide +kernel
  have remembered : forkedNode.Remembered (restakeAt 17) :=
    ⟨⟨17, spentAt_paid.mpr ⟨rfl, rfl⟩, Int.natCast_nonneg 17⟩,
      ForkedNode.checkSpentStakeAge_ok_iff.mp (by decide +kernel)⟩
  have early : ¬ SpentBy forkedNode.commonTxs (restakeAt 17).getProofOfStake.1 := by
    unfold SpentBy
    decide +kernel
  have late : SpentBy forkedNode.activeTxs (restakeAt 17).getProofOfStake.1 := by
    unfold SpentBy
    decide +kernel
  have made : MadeBy forkedNode.commonTxs (restakeAt 17).getProofOfStake.1 := by
    unfold MadeBy
    decide +kernel
  have noBranch : ¬ SpentBy forkedNode.branchTxs (restakeAt 17).getProofOfStake.1 :=
    fun ⟨_, member, _⟩ => by cases member
  have agree := (ForkedNode.stakeInput_decided_iff forkedNode (restakeAt 17) (by decide)).mpr
    ⟨fun spent => absurd spent early, fun _ _ _ _ => remembered,
      fun _ _ gone => absurd gone (not_or.mpr ⟨not_not.mpr (Or.inl made), noBranch⟩),
      fun _ unspent => absurd late unspent, fun _ unspent => absurd late unspent⟩
  exact ⟨passes, agree.mp passes⟩

/-- The tip itself has spent the coinbase of height 1, and a block behind it that stakes it passes
all the same. -/
theorem spent_stake_passes : (restakeAt 18).isProofOfStake = true ∧
    checkStakeInput paidNode.tables (restakeAt 18) = .ok () ∧
      paidNode.parentChain.view.isUnspent (restakeAt 18).getProofOfStake.1 = false := by
  refine ⟨by decide, by decide +kernel, by decide +kernel⟩

end Esbcoin
