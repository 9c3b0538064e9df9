import Esbcoin.Coins.Ledger
import Esbcoin.Validation.ContextualCheck
import Esbcoin.Validation.RoundTrip

/-!
# ConnectBlock overwrites nothing

The rule against overwriting transactions (`src/main.cpp:2208-2225`) is only enforced on blocks
without a hash. On a chain of blocks that passed `AcceptBlock` it is not needed: the transactions of
such a chain are a `Ledger`.
-/

namespace Esbcoin

open UndoLog CoinStep List

/-- The transactions `ConnectBlock` puts into the view: those of the genesis block are left out
(`main.cpp:2191-2196`). -/
def CBlock.connectedTxs (params : CChainParams) (block : CBlock) : List CTransaction :=
  if block.getHash = params.hashGenesisBlock then [] else block.vtx

/-- The transactions that blocks from a height on put into the view, with their heights. -/
def chainTxs (params : CChainParams) : Int → List CBlock → List (CTransaction × Int)
  | _, [] => []
  | nHeight, block :: rest =>
    (block.connectedTxs params).map (·, nHeight) ++ chainTxs params (nHeight + 1) rest

/-- A view that has unspent what these transactions leave unspent. -/
def LeftBy (view : FlatCoins) (txs : List (CTransaction × Int)) : Prop :=
  ∀ out, view.isUnspent out = unspentAfter txs out

/-- A block has passed `AcceptBlock` as the next one behind some blocks. The node may have been in
different states at its two checks. -/
def PassedAcceptBlock (params : CChainParams) (vBlocks : List CBlock) (block : CBlock) : Prop :=
  (∃ (env : CheckEnv) (mapBlockIndex : BlockMap) (chainActive : CChain) (fCheckMerkleRoot : Bool),
    env.params = params ∧
      checkBlock env mapBlockIndex chainActive block fCheckMerkleRoot = .ok ()) ∧
  ∃ (env : CheckEnv) (chainActive : CChain) (pindexPrev : Option CBlockIndex),
    env.params = params ∧ heightBehind pindexPrev = vBlocks.length ∧
      contextualCheckBlock env chainActive block pindexPrev = .ok ()

/-- A block is about to be connected behind some blocks: unless it is the genesis block it has
passed `AcceptBlock`, its height (an `int`) is theirs, and the view is at their end. -/
structure ReadyToConnect (params : CChainParams) (vBlocks : List CBlock) (block : CBlock)
    (s : ConnectState) : Prop where
  accepted : block.getHash ≠ params.hashGenesisBlock → PassedAcceptBlock params vBlocks block
  height : s.pindex.nHeight = vBlocks.length
  fits : s.pindex.nHeight < 2 ^ 31
  leftBy : LeftBy s.view.coins (chainTxs params 0 vBlocks)

/-- The blocks that were accepted and connected, one behind the other. -/
inductive ConnectedChain (params : CChainParams) : List CBlock → Prop
  | nil : ConnectedChain params []
  | connect {vBlocks : List CBlock} {env : ConnectEnv} {block : CBlock} {fAlreadyChecked : Bool}
      {s s' : ConnectState} (chain : ConnectedChain params vBlocks)
      (sameParams : env.params = params) (ready : ReadyToConnect params vBlocks block s)
      (connects : connectBlock env block false fAlreadyChecked s = .ok () s') :
      ConnectedChain params (vBlocks ++ [block])

/-! ## What ConnectBlock does to the view -/

theorem writeUndo_view {env : ConnectEnv} {vtxundo : List CTxUndo} {s s' : ConnectState}
    {u : Unit} (h : writeUndo env vtxundo s = .ok u s') : s'.view = s.view := by
  unfold writeUndo at h
  split at h
  · obtain ⟨-, rfl⟩ := EStateM.Result.ok.inj h
    rfl
  split at h
  · obtain ⟨-, rfl⟩ := EStateM.Result.ok.inj h
    rfl
  split at h
  · cases h
  split at h
  · cases h
  · cases h
  · obtain ⟨-, rfl⟩ := EStateM.Result.ok.inj h
    rfl

theorem writeBlock_coins {env : ConnectEnv} {block : CBlock} {tally : BlockTally}
    {s s' : ConnectState} {u : Unit} (h : writeBlock env block tally s = .ok u s') :
    s'.view.coins = s.view.coins := by
  simp only [writeBlock, validation_bind_ok, changing_ok] at h
  obtain ⟨_, written, undoWritten, _, indexed, txIndexed, _, _, changed, best⟩ := h
  obtain ⟨_, rfl⟩ := writeTxIndex_ok txIndexed
  obtain ⟨_, _, rfl⟩ := setBestBlock_ok best
  subst changed
  rw [writeUndo_view undoWritten]

/-- `ConnectBlock` puts the transactions of the block into the view, and does nothing else to it
but set its best block. -/
theorem connectBlock_executes {env : ConnectEnv} {block : CBlock}
    {fJustCheck fAlreadyChecked : Bool} {s s' : ConnectState}
    (h : connectBlock env block fJustCheck fAlreadyChecked s = .ok () s') :
    ∃ done, execTransactions s.pindex.nHeight s.view.coins (block.connectedTxs env.params) =
      some (s'.view.coins, done) := by
  simp only [connectBlock, validation_bind_ok, checking_ok] at h
  obtain ⟨_, _, ⟨-, rfl⟩, _, _, ⟨-, rfl⟩, h⟩ := h
  unfold CBlock.connectedTxs
  by_cases genesis : block.getHash = env.params.hashGenesisBlock
  · rw [if_pos genesis] at h ⊢
    obtain ⟨_, -, rfl⟩ := setBestBlock_ok h
    exact ⟨[], rfl⟩
  rw [if_neg genesis] at h ⊢
  simp only [connectNonGenesis, validation_bind_ok, checking_ok] at h
  obtain ⟨_, _, ⟨-, rfl⟩, _, _, ⟨-, rfl⟩, _, _, ⟨-, rfl⟩, got, _, hget, tally, looped, loop, _,
    recorded, supply, _, _, ⟨-, rfl⟩, _, _, ⟨-, rfl⟩, rest⟩ := h
  obtain ⟨rfl, rfl⟩ := EStateM.Result.ok.inj hget
  obtain ⟨coins, done, executes, rfl, -, -⟩ := connectTransactions_ok loop
  obtain ⟨sameView, -⟩ := recordSupply_ok supply
  have kept : s'.view.coins = coins := by
    cases fJustCheck with
    | true =>
      obtain ⟨-, rfl⟩ := EStateM.Result.ok.inj rest
      rw [sameView]
    | false => rw [writeBlock_coins rest, sameView]
  exact ⟨done, by rw [executes, kept]⟩

/-! ## The ledger of a chain -/

section Ledger

variable {txs : List (CTransaction × Int)} {view view' : FlatCoins} {nHeight : Int}

theorem LeftBy.updateCoins {tx : CTransaction} {txundo : CTxUndo} (leftBy : LeftBy view txs)
    (h : Esbcoin.updateCoins tx view nHeight = some (view', txundo)) :
    LeftBy view' (txs ++ [(tx, nHeight)]) := by
  intro out
  rw [isUnspent_execAll (updateCoins_execAll h).2, unspentAfter_snoc, leftBy out]

theorem LeftBy.execTransactions {vtx : List CTransaction}
    {done : List (CTransaction × CTxUndo)} (leftBy : LeftBy view txs)
    (h : Esbcoin.execTransactions nHeight view vtx = some (view', done)) :
    LeftBy view' (txs ++ vtx.map (·, nHeight)) := by
  intro out
  obtain ⟨-, -, executes⟩ := execTransactions_execAll h
  rw [isUnspent_execAll executes, leftBy out, unspentAfter, unspentAfter, flatMap_append,
    leftUnspent_append, flatMap_map]

/-- The inputs of a transaction that `UpdateCoins` accepts were unspent. -/
theorem LeftBy.available {tx : CTransaction} {txundo : CTxUndo} (leftBy : LeftBy view txs)
    (notBase : tx.isCoinBase = false)
    (h : Esbcoin.updateCoins tx view nHeight = some (view', txundo)) :
    ∀ out ∈ tx.prevouts, unspentAfter txs out = true := by
  intro out member
  have executes := (updateCoins_execAll h).2
  rw [coinSteps, if_neg (Bool.eq_false_iff.mp notBase)] at executes
  rw [← leftBy out]
  exact isUnspent_of_spends executes out member

/-- Transactions with inputs, none of them a coinbase, carry a ledger on. -/
theorem Ledger.execTransactions {vtx : List CTransaction} {done : List (CTransaction × CTxUndo)}
    (ledger : Ledger txs) (leftBy : LeftBy view txs)
    (inputs : ∀ tx ∈ vtx, tx.isCoinBase = false ∧ tx.vin ≠ [])
    (h : Esbcoin.execTransactions nHeight view vtx = some (view', done)) :
    Ledger (txs ++ vtx.map (·, nHeight)) := by
  induction vtx generalizing txs view done with
  | nil => rwa [map_nil, append_nil]
  | cons tx vtx ih =>
    simp only [Esbcoin.execTransactions] at h
    split at h
    · cases h
    rename_i middle txundo first
    split at h
    · cases h
    rename_i last rest later
    obtain ⟨rfl, rfl⟩ := Prod.mk.inj (Option.some.inj h)
    obtain ⟨notBase, hasInputs⟩ := inputs tx mem_cons_self
    have next : Ledger (txs ++ [(tx, nHeight)]) :=
      ledger.spends ⟨notBase, hasInputs, leftBy.available notBase first⟩
    have whole := ih next (leftBy.updateCoins first)
      (fun tx' member => inputs tx' (mem_cons_of_mem tx member)) later
    rwa [append_assoc] at whole

/-- What is before some transactions of a ledger is a ledger. -/
theorem Ledger.of_append {more : List (CTransaction × Int)} (ledger : Ledger (txs ++ more)) :
    Ledger txs := by
  induction more using List.reverseRecOn with
  | nil => rwa [append_nil] at ledger
  | append_singleton more e ih =>
    rw [← append_assoc] at ledger
    generalize whole : txs ++ more ++ [e] = all at ledger
    cases ledger with
    | nil => exact absurd whole (by simp)
    | coinBase before _ | spends before _ =>
      obtain ⟨rfl, -⟩ := append_inj' whole rfl
      exact ih before

end Ledger

/-- Every transaction of a block that passes has an input. -/
theorem vin_ne_nil_of_checkBlock {env : CheckEnv} {mapBlockIndex : BlockMap}
    {chainActive : CChain} {block : CBlock} {fCheckMerkleRoot : Bool}
    (h : checkBlock env mapBlockIndex chainActive block fCheckMerkleRoot = .ok ()) :
    ∀ tx ∈ block.vtx, tx.vin ≠ [] := by
  have each : ∀ {nBlockTime : Int} {vtx : List CTransaction},
      checkTransactions env nBlockTime vtx = .ok () → ∀ tx ∈ vtx, tx.vin ≠ [] := by
    intro nBlockTime vtx passed
    induction vtx with
    | nil => simp
    | cons tx vtx ih =>
      rw [checkTransactions, bind_ok_unit, checkTransaction, bind_ok_unit] at passed
      obtain ⟨⟨hasInputs, -⟩, rest⟩ := passed
      intro tx' member
      rcases mem_cons.mp member with rfl | member
      · exact isEmpty_eq_false_iff.mp (rejectIf_eq_ok.mp hasInputs)
      · exact ih rest tx' member
  simp only [checkBlock, bind_ok_unit] at h
  obtain ⟨-, -, -, -, -, -, -, transactions, -⟩ := h
  exact each transactions

theorem height_of_mem_chainTxs {params : CChainParams} {vBlocks : List CBlock} {nHeight : Int}
    {e : CTransaction × Int} (member : e ∈ chainTxs params nHeight vBlocks) :
    e.2 < nHeight + vBlocks.length := by
  induction vBlocks generalizing nHeight with
  | nil => cases member
  | cons block rest ih =>
    rw [length_cons]
    rcases mem_append.mp member with here | later
    · obtain ⟨tx, -, rfl⟩ := mem_map.mp here
      omega
    · have below := ih later
      omega

theorem chainTxs_snoc (params : CChainParams) (nHeight : Int) (vBlocks : List CBlock)
    (block : CBlock) :
    chainTxs params nHeight (vBlocks ++ [block]) =
      chainTxs params nHeight vBlocks ++
        (block.connectedTxs params).map (·, nHeight + vBlocks.length) := by
  induction vBlocks generalizing nHeight with
  | nil => simp [chainTxs]
  | cons first rest ih =>
    have next : nHeight + 1 + rest.length = nHeight + (first :: rest).length := by
      rw [length_cons]
      omega
    rw [cons_append, chainTxs, chainTxs, ih, next, append_assoc]

section Chain

variable {params : CChainParams} {vBlocks : List CBlock} {block : CBlock} {env : ConnectEnv}
variable {fJustCheck fAlreadyChecked : Bool} {s s' : ConnectState}

/-- A view at the end of the chain is at its end again with the next block. -/
theorem ReadyToConnect.leftBy_after (ready : ReadyToConnect params vBlocks block s)
    (sameParams : env.params = params)
    (h : connectBlock env block fJustCheck fAlreadyChecked s = .ok () s') :
    LeftBy s'.view.coins (chainTxs params 0 (vBlocks ++ [block])) := by
  subst sameParams
  obtain ⟨done, executes⟩ := connectBlock_executes h
  have after := ready.leftBy.execTransactions executes
  rwa [chainTxs_snoc, Int.zero_add, ← ready.height]

theorem ReadyToConnect.ledger_after (ready : ReadyToConnect params vBlocks block s)
    (ledger : Ledger (chainTxs params 0 vBlocks)) (sameParams : env.params = params)
    (h : connectBlock env block fJustCheck fAlreadyChecked s = .ok () s') :
    Ledger (chainTxs params 0 (vBlocks ++ [block])) := by
  subst sameParams
  obtain ⟨done, executes⟩ := connectBlock_executes h
  rw [chainTxs_snoc, Int.zero_add, ← ready.height]
  unfold CBlock.connectedTxs at executes ⊢
  by_cases genesis : block.getHash = env.params.hashGenesisBlock
  · rwa [if_pos genesis, map_nil, append_nil]
  rw [if_neg genesis] at executes ⊢
  obtain ⟨⟨checkEnv, _, _, _, -, checked⟩, contextEnv, _, pindexPrev, sameContext, heightPrev,
    context⟩ := ready.accepted genesis
  obtain ⟨coinBase, vtx, hvtx, isBase, others⟩ := coinBase_of_checkBlock checked
  obtain ⟨_, _, txin, vin, rest, hvtx', hvin, script⟩ :=
    startsWith_of_contextualCheckBlock (by rwa [sameContext]) context
  have hasInputs := vin_ne_nil_of_checkBlock checked
  rw [hvtx] at executes hasInputs hvtx' ⊢
  obtain ⟨rfl, rfl⟩ := List.cons.inj hvtx'
  rw [heightPrev, ← ready.height] at script
  have base : CoinBaseBehind (chainTxs env.params 0 vBlocks) coinBase s.pindex.nHeight := by
    refine ⟨isBase, ⟨txin, vin, rest, hvin, script⟩, ?_, ready.fits, fun e member _ => ?_⟩
    · rw [ready.height]
      omega
    · have below := height_of_mem_chainTxs member
      rw [ready.height]
      omega
  simp only [execTransactions] at executes
  split at executes
  · cases executes
  rename_i middle txundo first
  split at executes
  · cases executes
  rename_i last later executesRest
  have whole := (ledger.coinBase base).execTransactions (ready.leftBy.updateCoins first)
    (fun tx member => ⟨others tx member, hasInputs tx (mem_cons_of_mem _ member)⟩)
    executesRest
  rwa [append_assoc] at whole

theorem ConnectedChain.ledger (chain : ConnectedChain params vBlocks) :
    Ledger (chainTxs params 0 vBlocks) := by
  induction chain with
  | nil => exact Ledger.nil
  | connect _ sameParams ready connects ih => exact ready.ledger_after ih sameParams connects

/-- On a chain of accepted blocks with an injective transaction hash no output of a transaction's id
is unspent when it is connected. -/
theorem connectBlock_overwrites_nothing (chain : ConnectedChain params vBlocks)
    (ready : ReadyToConnect params vBlocks block s) (sameParams : env.params = params)
    (injective : HashInjective ((chainTxs params 0 (vBlocks ++ [block])).map Prod.fst))
    (h : connectBlock env block fJustCheck fAlreadyChecked s = .ok () s') :
    (∀ before tx after view done, block.connectedTxs params = before ++ tx :: after →
      execTransactions s.pindex.nHeight s.view.coins before = some (view, done) →
      ∀ n, view.isUnspent ⟨tx.getHash, n⟩ = false) ∧
    (∀ e ∈ chainTxs params 0 (vBlocks ++ [block]), e.1.isCoinBase = true →
      StartsWithHeight e.1 e.2) ∧
    ((chainTxs params 0 (vBlocks ++ [block])).Pairwise fun e e' => e.1.isCoinBase = true →
      e'.1.isCoinBase = true → e.2 < e'.2 ∧ e.1.vin ≠ e'.1.vin) ∧
    (∀ e ∈ chainTxs params 0 (vBlocks ++ [block]), e.1.isCoinBase = false → e.1.prevouts ≠ []) ∧
    (chainTxs params 0 (vBlocks ++ [block])).Pairwise fun e e' => e.1.isCoinBase = false →
      e'.1.isCoinBase = false → e.1.prevouts.Disjoint e'.1.prevouts := by
  have ledger := ready.ledger_after chain.ledger sameParams h
  have sound := ledger.sound injective
  refine ⟨?_, fun e member isBase => (sound.bases e member isBase).1, sound.basesDiffer,
    sound.hasInputs, sound.spendOnce⟩
  intro before tx after view done split executes n
  have whole : chainTxs params 0 (vBlocks ++ [block]) =
      (chainTxs params 0 vBlocks ++ before.map (·, s.pindex.nHeight)) ++
        (tx, s.pindex.nHeight) :: after.map (·, s.pindex.nHeight) := by
    rw [chainTxs_snoc, split, Int.zero_add, ← ready.height, map_append, append_assoc]
    rfl
  rw [whole] at ledger injective sound
  have leftBy := ready.leftBy.execTransactions executes
  cases unspent : view.isUnspent ⟨tx.getHash, n⟩ with
  | false => rfl
  | true =>
    rw [leftBy] at unspent
    obtain ⟨e, member, hash⟩ := (ledger.of_append.sound injective.of_append).made _ unspent
    have ids := sound.ids
    rw [map_append] at ids
    have apart := disjoint_of_nodup_append ids (mem_map_of_mem member)
    exact absurd (by rw [hash]; exact mem_cons_self) apart

end Chain

/-! ## Two coinbases -/

def straightEnv : ConnectEnv := { lenientEnv with params := regTestParams 1 }

def coinBaseBlock (nHeight : Nat) : CBlock where
  nVersion := 4
  hashPrevBlock := nHeight
  hashMerkleRoot := 0
  nTime := 1600000000
  nBits := 0
  nNonce := 0
  hash := BitVec.ofNat 256 (nHeight + 1)
  vtx := [⟨BitVec.ofNat 256 (nHeight + 100), 1,
    [{ prevout := COutPoint.null, scriptSig := CScript.pushInt64 nHeight ++ [0] }],
    [⟨0, [0x51]⟩], 0, []⟩]

def atHeight (nHeight : Nat) (small : nHeight < 2 ^ 256) (view : CoinsView) : ConnectState where
  node := { mapBlockIndex := straightMap nHeight small, chainActive := straightChain nHeight }
  pindex := straightIndex nHeight
  view := view

/-- The node behind the block. -/
def connected (block : CBlock) (s : ConnectState) : ConnectState :=
  match connectBlock straightEnv block false true s with
  | .ok _ s' => s'
  | .error _ s' => s'

def beforeGenesis : ConnectState := atHeight 0 (by decide) ⟨FlatCoins.empty, 0⟩

def beforeFirst : ConnectState :=
  atHeight 1 (by decide) (connected (coinBaseBlock 0) beforeGenesis).view

def beforeSecond : ConnectState :=
  atHeight 2 (by decide) (connected (coinBaseBlock 1) beforeFirst).view

theorem connected_of_isOk (block : CBlock) (s : ConnectState)
    (h : (match connectBlock straightEnv block false true s with
      | .ok _ _ => true
      | .error _ _ => false) = true) :
    connectBlock straightEnv block false true s = .ok () (connected block s) := by
  unfold connected
  cases result : connectBlock straightEnv block false true s with
  | ok _ s' => rfl
  | error => rw [result] at h; cases h

theorem coinBaseBlock_passes (vBlocks : List CBlock) (nHeight : Nat)
    (length : vBlocks.length = nHeight) (low : nHeight = 1 ∨ nHeight = 2) :
    PassedAcceptBlock (regTestParams 1) vBlocks (coinBaseBlock nHeight) := by
  subst length
  constructor
  · refine ⟨straightEnv.toCheckEnv, ∅, ⟨[]⟩, true, rfl, ?_⟩
    rcases low with low | low <;> rw [low] <;> decide +kernel
  · refine ⟨straightEnv.toCheckEnv, ⟨[]⟩, some (straightIndex (vBlocks.length - 1)), rfl, ?_, ?_⟩
    · rcases low with low | low <;> rw [low] <;> rfl
    · rcases low with low | low <;> rw [low] <;> decide +kernel

/-- The coinbase of the second block finds no output of its id, although that of the first is
still unspent. -/
theorem second_coinBase_new :
    ConnectedChain (regTestParams 1) [coinBaseBlock 0, coinBaseBlock 1] ∧
      beforeSecond.view.coins.isUnspent ⟨101, 0⟩ = true ∧
      beforeSecond.view.coins.isUnspent ⟨102, 0⟩ = false := by
  have genesisConnects := connected_of_isOk (coinBaseBlock 0) beforeGenesis
    (by decide +kernel)
  have firstConnects := connected_of_isOk (coinBaseBlock 1) beforeFirst
    (by decide +kernel)
  have secondConnects := connected_of_isOk (coinBaseBlock 2) beforeSecond
    (by decide +kernel)
  have genesisReady : ReadyToConnect (regTestParams 1) [] (coinBaseBlock 0) beforeGenesis :=
    ⟨fun other => absurd rfl other, rfl, by decide, fun _ => rfl⟩
  have genesisChain := ConnectedChain.nil.connect rfl genesisReady genesisConnects
  have firstView := genesisReady.leftBy_after rfl genesisConnects
  have firstReady : ReadyToConnect (regTestParams 1) [coinBaseBlock 0] (coinBaseBlock 1)
      beforeFirst :=
    ⟨fun _ => coinBaseBlock_passes _ 1 rfl (Or.inl rfl), rfl, by decide, firstView⟩
  have firstChain := genesisChain.connect rfl firstReady firstConnects
  have secondView := firstReady.leftBy_after rfl firstConnects
  have secondReady : ReadyToConnect (regTestParams 1) [coinBaseBlock 0, coinBaseBlock 1]
      (coinBaseBlock 2) beforeSecond :=
    ⟨fun _ => coinBaseBlock_passes _ 2 rfl (Or.inr rfl), rfl, by decide, secondView⟩
  obtain ⟨new, -⟩ := connectBlock_overwrites_nothing firstChain secondReady rfl
    (by unfold HashInjective; decide) secondConnects
  exact ⟨firstChain, by decide +kernel, new [] _ [] _ _ rfl rfl 0⟩

end Esbcoin
