import Esbcoin.Coins.BlockSteps
import Esbcoin.Validation.ConnectBlock

namespace Esbcoin

open UndoLog CoinStep CTxInUndo List

/-! ## What ConnectBlock has done when it succeeds -/

variable {tally : BlockTally} {u : Unit}

/-- What one turn of the loop over the transactions does. -/
theorem connectTransaction_ok {env : ConnectEnv} {fScriptChecks : Bool} {i : Nat}
    {tx : CTransaction} {tally' : BlockTally} {s s' : ConnectState}
    (h : connectTransaction env fScriptChecks i tx tally s = .ok tally' s') :
    ∃ coins txundo, updateCoins tx s.view.coins s.pindex.nHeight = some (coins, txundo) ∧
      s' = { s with view := { s.view with coins } } ∧ tx.getValueOut.isSome = true ∧
      tally'.vtxundo = if i = 0 then tally.vtxundo else tally.vtxundo ++ [txundo] := by
  unfold connectTransaction at h
  simp only at h
  split at h
  · rename_i tally'' coins result
    simp only [bind_ok, orCrash_eq_ok, Except.ok.injEq, Prod.mk.injEq, Prod.exists] at result
    obtain ⟨-, -, middle, inputs, valueOut, out, coins', txundo, updates, rfl, rfl⟩ := result
    obtain ⟨rfl, rfl⟩ := h
    refine ⟨coins', txundo, updates, rfl, by simp [out], ?_⟩
    have kept : middle.vtxundo = tally.vtxundo := by
      unfold connectInputs at inputs
      split at inputs
      · obtain rfl := Except.ok.inj inputs
        rfl
      · simp only [bind_ok, Except.ok.injEq] at inputs
        obtain ⟨-, -, -, -, _, -, _, -, _, -, rfl⟩ := inputs
        rfl
    rw [kept]
  · cases h

/-- What the loop over the transactions does. -/
theorem connectTransactions_ok {env : ConnectEnv} {fScriptChecks : Bool} {i : Nat}
    {vtx : List CTransaction} {tally' : BlockTally} {s s' : ConnectState}
    (h : connectTransactions env fScriptChecks i vtx tally s = .ok tally' s') :
    ∃ coins done, execTransactions s.pindex.nHeight s.view.coins vtx = some (coins, done) ∧
      s' = { s with view := { s.view with coins } } ∧
      (∀ tx ∈ vtx, tx.getValueOut.isSome = true) ∧
      tally'.vtxundo = tally.vtxundo ++
        if i = 0 then (done.map Prod.snd).tail else done.map Prod.snd := by
  induction vtx generalizing i tally s with
  | nil =>
    obtain ⟨rfl, rfl⟩ := EStateM.Result.ok.inj h
    exact ⟨s.view.coins, [], rfl, rfl, by simp, by simp⟩
  | cons tx vtx ih =>
    rw [connectTransactions, validation_bind_ok] at h
    obtain ⟨middle, s'', first, rest⟩ := h
    obtain ⟨coins, txundo, updates, rfl, hasValue, undo⟩ := connectTransaction_ok first
    obtain ⟨coins', done, executes, rfl, haveValues, undos⟩ := ih rest
    refine ⟨coins', (tx, txundo) :: done, ?_, rfl, ?_, ?_⟩
    · simp only [execTransactions, updates, executes]
    · intro tx' member
      rcases mem_cons.mp member with rfl | member
      · exact hasValue
      · exact haveValues tx' member
    · rw [undos, undo, if_neg (Nat.succ_ne_zero i)]
      by_cases zero : i = 0
      · simp [zero]
      · simp [zero]

theorem setIndex_undoFiles (s : ConnectState) (pindex : CBlockIndex) :
    (s.setIndex pindex).node.undoFiles = s.node.undoFiles := by
  unfold ConnectState.setIndex
  split <;> rfl

theorem recordSupply_ok {env : ConnectEnv} {block : CBlock} {s s' : ConnectState}
    (h : recordSupply env block tally s = .ok u s') :
    s'.view = s.view ∧ s'.node.undoFiles = s.node.undoFiles ∧
      ∃ supplyPrev, supplyPrev = (s.pindexPrev.map CBlockIndex.nMoneySupply).getD 0 ∧
        s'.pindex = { s.pindex with
          nMoneySupply := supplyPrev + tally.nValueOut - tally.nValueIn
          nMint := supplyPrev + tally.nValueOut - tally.nValueIn - supplyPrev } := by
  unfold recordSupply at h
  split at h
  · obtain ⟨-, rfl⟩ := EStateM.Result.ok.inj h
    exact ⟨rfl, setIndex_undoFiles _ _, _, rfl, rfl⟩
  · cases h

/-- An entry without undo data gets some, at a position where it can be read. -/
theorem writeUndo_ok {env : ConnectEnv} {vtxundo : List CTxUndo} {s s' : ConnectState}
    (noUndo : s.pindex.getUndoPos = none) (h : writeUndo env vtxundo s = .ok u s') :
    ∃ hashPrev pos, s.pindex.pprev = some hashPrev ∧ s'.view = s.view ∧
      s'.pindex.phashBlock = s.pindex.phashBlock ∧ s'.pindex.pprev = s.pindex.pprev ∧
      s'.pindex.nHeight = s.pindex.nHeight ∧ s'.pindex.getUndoPos = some pos ∧
      s'.node.undoFiles.lookup pos =
        some ⟨vtxundo.map fun txundo => txundo.vprevout.map serialize,
          env.hashUndo hashPrev
            (vtxundo.map fun txundo => txundo.vprevout.map serialize)⟩ := by
  unfold writeUndo at h
  simp only [noUndo, Option.isSome_none, Bool.false_and, Bool.false_eq_true, ↓reduceIte] at h
  split at h
  · cases h
  split at h
  · cases h
  · cases h
  rename_i nPos hashPrev _ hprev
  obtain ⟨-, rfl⟩ := EStateM.Result.ok.inj h
  refine ⟨hashPrev, ⟨s.pindex.nFile, nPos⟩, hprev, rfl, rfl, rfl, rfl, ?_, ?_⟩
  · simp only [CBlockIndex.getUndoPos, ConnectState.setIndex, BlockStatus.raiseValidity]
    split <;> split <;> simp_all
  · rw [setIndex_undoFiles]
    exact AList.lookup_insert _

/-- Writing the transaction index changes nothing else. -/
theorem writeTxIndex_ok {env : ConnectEnv} {vPos : List (UInt256 × CDiskTxPos)}
    {s s' : ConnectState} (h : writeTxIndex env vPos s = .ok u s') :
    ∃ txIndex, s' = { s with node := { s.node with txIndex } } := by
  unfold writeTxIndex at h
  split at h
  · obtain ⟨-, rfl⟩ := EStateM.Result.ok.inj h
    exact ⟨s.node.txIndex, rfl⟩
  split at h
  · cases h
  · obtain ⟨-, rfl⟩ := EStateM.Result.ok.inj h
    exact ⟨_, rfl⟩

theorem setBestBlock_ok {s s' : ConnectState} (h : setBestBlock s = .ok u s') :
    ∃ hash, s.pindex.phashBlock = some hash ∧
      s' = { s with view := { s.view with hashBlock := hash } } := by
  unfold setBestBlock at h
  split at h
  · cases h
  · rename_i hash found
    obtain ⟨-, rfl⟩ := EStateM.Result.ok.inj h
    exact ⟨hash, found, rfl⟩

/-- What the last part of `ConnectBlock` does for an entry without undo data. -/
theorem writeBlock_ok {env : ConnectEnv} {block : CBlock} {s s' : ConnectState}
    (noUndo : s.pindex.getUndoPos = none) (h : writeBlock env block tally s = .ok u s') :
    ∃ hash hashPrev pos, s.pindex.pprev = some hashPrev ∧
      s'.pindex.phashBlock = some hash ∧ s'.pindex.pprev = some hashPrev ∧
      s'.pindex.nHeight = s.pindex.nHeight ∧ s'.view = ⟨s.view.coins, hash⟩ ∧
      s'.pindex.getUndoPos = some pos ∧
      s'.node.undoFiles.lookup pos =
        some ⟨tally.vtxundo.map fun txundo => txundo.vprevout.map serialize,
          env.hashUndo hashPrev
            (tally.vtxundo.map fun txundo => txundo.vprevout.map serialize)⟩ := by
  simp only [writeBlock, validation_bind_ok, changing_ok] at h
  obtain ⟨_, written, undoWritten, _, indexed, txIndexed, _, _, changed, best⟩ := h
  obtain ⟨hashPrev, pos, hprev, view, hash, prev, height, undoPos, file⟩ :=
    writeUndo_ok noUndo undoWritten
  obtain ⟨txIndex, rfl⟩ := writeTxIndex_ok txIndexed
  obtain ⟨hashBlock, found, rfl⟩ := setBestBlock_ok best
  subst changed
  refine ⟨hashBlock, hashPrev, pos, hprev, found, prev.trans hprev, height, ?_, undoPos, file⟩
  rw [view]

/-- What is written to the undo file for these transactions. -/
def written (undos : List CTxUndo) : List (List DiskTxInUndo) :=
  undos.map fun txundo => txundo.vprevout.map serialize

/-- What a block that was connected, and got undo data, has behind it. -/
structure Connected (env : ConnectEnv) (block : CBlock) (before after : ConnectState)
    (coins : FlatCoins) (done : List (CTransaction × CTxUndo)) : Prop where
  executes : execTransactions before.pindex.nHeight before.view.coins block.vtx = some (coins, done)
  haveValues : ∀ tx ∈ block.vtx, tx.getValueOut.isSome = true
  height : after.pindex.nHeight = before.pindex.nHeight
  view : after.view = ⟨coins, after.pindex.getBlockHash⟩
  prev : after.pindex.pprev = some before.view.hashBlock
  undo : ∃ pos, after.pindex.getUndoPos = some pos ∧ after.node.undoFiles.lookup pos =
    some ⟨written (done.map Prod.snd).tail,
      env.hashUndo before.view.hashBlock (written (done.map Prod.snd).tail)⟩

/-- What `ConnectBlock` has done for an entry without undo data. -/
theorem connectBlock_ok {env : ConnectEnv} {block : CBlock} {fAlreadyChecked : Bool}
    {s s' : ConnectState} (notGenesis : block.getHash ≠ env.params.hashGenesisBlock)
    (noUndo : s.pindex.getUndoPos = none)
    (h : connectBlock env block false fAlreadyChecked s = .ok () s') :
    checkAgain env block false fAlreadyChecked s = .ok () ∧
      ∃ coins done, Connected env block s s' coins done := by
  simp only [connectBlock, validation_bind_ok, checking_ok] at h
  obtain ⟨_, _, ⟨again, rfl⟩, _, _, ⟨parent, rfl⟩, h⟩ := h
  rw [if_neg notGenesis] at h
  simp only [connectNonGenesis, validation_bind_ok, checking_ok] at h
  obtain ⟨_, _, ⟨-, rfl⟩, _, _, ⟨-, rfl⟩, _, _, ⟨-, rfl⟩, got, _, hget, tally, looped, loop, _,
    recorded, supply, _, _, ⟨-, rfl⟩, _, _, ⟨-, rfl⟩, writes⟩ := h
  obtain ⟨rfl, rfl⟩ := EStateM.Result.ok.inj hget
  obtain ⟨coins, done, executes, rfl, haveValues, undo⟩ := connectTransactions_ok loop
  obtain ⟨sameView, -, supplyPrev, -, sameIndex⟩ := recordSupply_ok supply
  obtain ⟨hash, hashPrev, pos, prev, phash, prev', height, view, undoPos, file⟩ :=
    writeBlock_ok (by rw [sameIndex]; exact noUndo) writes
  rw [sameIndex] at prev height
  rw [sameView] at view
  have undos : tally.vtxundo = (done.map Prod.snd).tail := by simpa using undo
  rw [undos] at file
  have sameParent : hashPrev = s.view.hashBlock := by
    have same := rejectIf_eq_ok.mp parent
    rw [show s.pindex.pprev = some hashPrev from prev, Option.getD_some] at same
    exact bne_eq_false_iff_eq.mp same
  subst sameParent
  refine ⟨again, coins, done, executes, haveValues, height, ?_, prev', pos, undoPos, file⟩
  rw [view, CBlockIndex.getBlockHash, phash, Option.getD_some]

/-! ## Reading the undo data -/

theorem readAll_map {α β γ : Type} {read : β → Option γ} {write : α → β} {back : α → γ}
    {xs : List α} (h : ∀ x ∈ xs, read (write x) = some (back x)) :
    readAll read (xs.map write) = some (xs.map back) := by
  induction xs with
  | nil => rfl
  | cons x xs ih =>
    have here := h x mem_cons_self
    have later := ih fun y member => h y (mem_cons_of_mem x member)
    simp only [map_cons, readAll, here, later]

theorem isSome_of_readAll {α β : Type} {read : α → Option β} {xs : List α} {ys : List β}
    (h : readAll read xs = some ys) : ∀ x ∈ xs, (read x).isSome = true := by
  induction xs generalizing ys with
  | nil => simp
  | cons x xs ih =>
    simp only [readAll] at h
    split at h
    · rename_i first later
      intro y member
      rcases mem_cons.mp member with rfl | member
      · simp [first]
      · exact ih later y member
    · cases h

/-- Every undo record can be read back. -/
def AllReadable (undos : List CTxUndo) : Prop :=
  ∀ txundo ∈ undos, ∀ undo ∈ txundo.vprevout, undo.serialize.unserialize.isSome = true

theorem unserialize_eq_readBack {undo : CTxInUndo}
    (h : undo.serialize.unserialize.isSome = true) :
    undo.serialize.unserialize = some undo.readBack := by
  obtain ⟨read, eq⟩ := Option.isSome_iff_exists.mp h
  rw [CTxInUndo.readBack, eq, Option.getD_some]

/-- Undo data that can be read passes its checksum. -/
theorem readUndo_written (env : ConnectEnv) (hashBlock : UInt256) {undos : List CTxUndo}
    (readable : AllReadable undos) :
    readUndo env ⟨written undos, env.hashUndo hashBlock (written undos)⟩ hashBlock =
      some (undos.map CTxUndo.readBack) := by
  have inner : ∀ txundo ∈ undos,
      readAll DiskTxInUndo.unserialize (txundo.vprevout.map serialize) =
        some (txundo.vprevout.map CTxInUndo.readBack) := fun txundo member =>
    readAll_map fun undo inside => unserialize_eq_readBack (readable txundo member undo inside)
  have same : (undos.map fun txundo => txundo.vprevout.map CTxInUndo.readBack).map
      (·.map serialize) = written undos := by
    rw [map_map]
    refine map_congr_left fun txundo member => ?_
    show (txundo.vprevout.map CTxInUndo.readBack).map serialize = _
    rw [map_map]
    refine map_congr_left fun undo inside => ?_
    exact serialize_of_unserialize (unserialize_eq_readBack (readable txundo member undo inside))
  have read : readAll (readAll DiskTxInUndo.unserialize) (written undos) =
      some (undos.map fun txundo => txundo.vprevout.map CTxInUndo.readBack) := readAll_map inner
  simp only [readUndo, read, same, ↓reduceIte, map_map]
  rfl

theorem allReadable_of_readUndo {env : ConnectEnv} {hash hashBlock : UInt256}
    {undos got : List CTxUndo} (h : readUndo env ⟨written undos, hash⟩ hashBlock = some got) :
    AllReadable undos := by
  unfold readUndo at h
  split at h
  · cases h
  rename_i vtxundo read
  intro txundo member undo inside
  have all := isSome_of_readAll read _ (mem_map_of_mem member)
  obtain ⟨_, inner⟩ := Option.isSome_iff_exists.mp all
  exact isSome_of_readAll inner _ (mem_map_of_mem inside)

/-! ## The log of a connected block -/

section Log

variable {env : ConnectEnv} {block : CBlock} {s s' : ConnectState} {coins : FlatCoins}
variable {done : List (CTransaction × CTxUndo)}

/-- The steps of a block. -/
def blockSteps (block : CBlock) (nHeight : Int) : List CoinStep :=
  block.vtx.flatMap fun tx => coinSteps tx nHeight

/-- The steps of a block with their undo records. -/
def blockLog (nHeight : Int) (done : List (CTransaction × CTxUndo)) :
    List (CoinStep × Option CTxInUndo) :=
  done.flatMap fun (tx, txundo) => coinLog tx nHeight txundo

/-- The first transaction is the coinbase, the others have undo data for every input. -/
structure Generated (done : List (CTransaction × CTxUndo)) : Prop where
  first : ∃ coinBase rest, done = coinBase :: rest ∧ coinBase.1.isCoinBase = true ∧
    ∀ entry ∈ rest, entry.1.isCoinBase = false ∧ entry.2.vprevout.length = entry.1.vin.length

theorem Connected.executes_log (connected : Connected env block s s' coins done) :
    execAll exec s.view.coins (blockSteps block s.pindex.nHeight) =
      some (coins, blockLog s.pindex.nHeight done) :=
  (execTransactions_execAll connected.executes).2.2

theorem Connected.generated (connected : Connected env block s s' coins done)
    {coinBase : CTransaction} {vtx : List CTransaction} (hvtx : block.vtx = coinBase :: vtx)
    (first : coinBase.isCoinBase = true) (others : ∀ tx ∈ vtx, tx.isCoinBase = false) :
    Generated done := by
  obtain ⟨names, lengths, -⟩ := execTransactions_execAll connected.executes
  rw [hvtx] at names
  cases done with
  | nil => cases names
  | cons entry rest =>
    obtain ⟨rfl, rfl⟩ := List.cons.inj names
    refine ⟨entry, rest, rfl, first, fun other member => ?_⟩
    have notBase := others other.1 (mem_map_of_mem member)
    exact ⟨notBase, lengths other (mem_cons_of_mem entry member) notBase⟩

/-- Every step of the log can be read back exactly when the undo data can. -/
theorem readable_blockLog_iff (nHeight : Int) (generated : Generated done) :
    (∀ e ∈ blockLog nHeight done, ∀ out, e.1 = spend out → Readable e.1 e.2) ↔
      AllReadable (done.map Prod.snd).tail := by
  obtain ⟨coinBase, rest, rfl, first, others⟩ := generated.first
  constructor
  · intro readable txundo member undo inside
    obtain ⟨⟨tx, txundo'⟩, listed, same⟩ := mem_map.mp member
    obtain rfl : txundo' = txundo := same
    obtain ⟨notBase, length⟩ : tx.isCoinBase = false ∧
      txundo'.vprevout.length = tx.vin.length := others _ listed
    obtain ⟨i, bound, rfl⟩ := getElem_of_mem inside
    have bound' : i < tx.prevouts.length := by
      rw [CTransaction.prevouts, length_map]
      omega
    have inLog : (spend tx.prevouts[i], some (txundo'.vprevout[i])) ∈
        blockLog nHeight (coinBase :: rest) := by
      refine mem_flatMap.mpr ⟨_, mem_cons_of_mem _ listed, ?_⟩
      refine mem_append_left _ ?_
      rw [if_neg (by simp [notBase])]
      refine mem_map.mpr ⟨(tx.prevouts[i], txundo'.vprevout[i]), ?_, rfl⟩
      exact mem_iff_getElem.mpr ⟨i, by rw [length_zip]; omega, by simp⟩
    obtain ⟨u, same, isRead⟩ := readable _ inLog _ rfl
    obtain rfl := Option.some.inj same
    exact isRead
  · intro readable e member out isSpend
    obtain ⟨⟨tx, txundo⟩, listed, inLog⟩ := mem_flatMap.mp member
    rcases mem_append.mp inLog with inLog | isCreate
    · cases isBase : tx.isCoinBase with
      | true => simp [isBase] at inLog
      | false =>
        rcases mem_cons.mp listed with same | listed
        · rw [← same] at first
          rw [isBase] at first
          cases first
        rw [if_neg (by simp [isBase])] at inLog
        obtain ⟨⟨out', undo⟩, inZip, rfl⟩ := mem_map.mp inLog
        have inside := (of_mem_zip inZip).2
        exact ⟨undo, rfl, readable _ (mem_map_of_mem listed) undo inside⟩
    · obtain rfl := mem_singleton.mp isCreate
      cases isSpend

/-- With undo data that can be read, every step of the log can be taken back. -/
theorem Connected.readable (connected : Connected env block s s' coins done)
    (generated : Generated done) (readable : AllReadable (done.map Prod.snd).tail) :
    ∀ e ∈ blockLog s.pindex.nHeight done, Readable e.1 e.2 := by
  rintro ⟨step, undo⟩ member
  cases step with
  | spend out => exact (readable_blockLog_iff _ generated).mpr readable _ member out rfl
  | create tx nHeight =>
    have listed : create tx nHeight ∈ blockSteps block s.pindex.nHeight := by
      rw [← map_fst_of_execAll connected.executes_log]
      exact mem_map_of_mem member
    obtain ⟨tx', inBlock, inSteps⟩ := mem_flatMap.mp listed
    obtain ⟨rfl, -⟩ : tx = tx' ∧ nHeight = s.pindex.nHeight := by
      simp only [coinSteps, mem_append, mem_singleton, create.injEq] at inSteps
      rcases inSteps with isSpend | same
      · split at isSpend <;> simp at isSpend
      · exact same
    obtain ⟨total, value⟩ := Option.isSome_iff_exists.mp (connected.haveValues tx inBlock)
    exact CTransaction.not_isNull_of_getValueOut value

theorem undoTransactions_ok {vtxundo : List CTxUndo} {t : Disconnecting}
    (h : disconnectTransactions s.pindex.nHeight (block.vtx.zip (none :: vtxundo.map some))
      ⟨s.view.coins, s.node.mapStakeSpent, true⟩ = .ok () t) :
    undoTransactions block vtxundo s = .ok t.fClean
      { s with
        view := { s.view with coins := t.coins }
        node := { s.node with mapStakeSpent := t.mapStakeSpent } } := by
  simp only [undoTransactions, h]

section

variable (connected : Connected env block s s' coins done)
include connected

theorem disconnectTransactions_eq (generated : Generated done) :
    disconnectTransactions s'.pindex.nHeight
        (block.vtx.zip (none :: (((done.map Prod.snd).tail.map CTxUndo.readBack).map some)))
        ⟨s'.view.coins, s'.node.mapStakeSpent, true⟩ =
      .ok () (revertAll revert ⟨coins, s'.node.mapStakeSpent, true⟩
        (blockLog s.pindex.nHeight done)) := by
  obtain ⟨names, -, -⟩ := execTransactions_execAll connected.executes
  obtain ⟨coinBase, rest, rfl, first, others⟩ := generated.first
  rw [connected.height, connected.view]
  apply disconnectTransactions_eq_revertAll
  have zipped : block.vtx.zip
      (none :: ((((coinBase :: rest).map Prod.snd).tail.map CTxUndo.readBack).map some)) =
        (coinBase.1, none) :: rest.map fun entry => (entry.1, some entry.2.readBack) := by
    rw [← names]
    simp only [map_cons, tail_cons, zip_cons_cons, map_map, zip_map']
    rfl
  rw [zipped]
  refine List.Forall₂.cons ⟨rfl, fun notBase => ?_⟩ ?_
  · rw [first] at notBase
    cases notBase
  · rw [forall₂_map_right_iff, forall₂_same]
    exact fun entry member => ⟨rfl, fun _ => ⟨(others entry member).2, rfl⟩⟩

/-- The undo data of a connected block is found if it can be read. -/
theorem loadUndo_of_readable (generated : Generated done)
    (readable : AllReadable (done.map Prod.snd).tail) :
    loadUndo env block s' = .ok ((done.map Prod.snd).tail.map CTxUndo.readBack) := by
  obtain ⟨pos, found, file⟩ := connected.undo
  obtain ⟨names, -, -⟩ := execTransactions_execAll connected.executes
  have read := readUndo_written env s.view.hashBlock readable
  have length : (((done.map Prod.snd).tail.map CTxUndo.readBack).length + 1 !=
      block.vtx.length) = false := by
    obtain ⟨coinBase, rest, rfl, -⟩ := generated.first
    rw [← names]
    simp
  simp only [loadUndo, found, connected.prev, orCrash, bind, Except.bind, file, Option.bind_some,
    read, length, rejectIf, Bool.false_eq_true, ↓reduceIte]

/-- Undo data that is found can be read. -/
theorem allReadable_of_loadUndo {vtxundo : List CTxUndo} (h : loadUndo env block s' = .ok vtxundo) :
    AllReadable (done.map Prod.snd).tail := by
  obtain ⟨pos, found, file⟩ := connected.undo
  simp only [loadUndo, found, connected.prev, orCrash, bind, Except.bind, file,
    Option.bind_some] at h
  cases read : readUndo env ⟨written (done.map Prod.snd).tail,
      env.hashUndo s.view.hashBlock (written (done.map Prod.snd).tail)⟩ s.view.hashBlock with
  | none => simp [read] at h
  | some got => exact allReadable_of_readUndo read

/-- What `DisconnectBlock` does to a block whose undo data can be read. -/
theorem disconnectBlock_of_readable (generated : Generated done)
    (readable : AllReadable (done.map Prod.snd).tail) :
    ∃ s'' t, t = revertAll revert ⟨coins, s'.node.mapStakeSpent, true⟩
        (blockLog s.pindex.nHeight done) ∧
      disconnectBlock env block s' = .ok t.fClean s'' ∧ s''.view = ⟨t.coins, s.view.hashBlock⟩ := by
  have undo := loadUndo_of_readable connected generated readable
  have loop := disconnectTransactions_eq connected generated
  have best : (s'.pindex.getBlockHash != s'.view.hashBlock) = false := by
    rw [connected.view]
    simp
  have undone := undoTransactions_ok loop
  simp only [disconnectBlock, validation_bind_ok, checking_ok, changing_ok]
  refine ⟨_, _, rfl, ⟨(), s', ⟨rejectIf_eq_ok.mpr best, rfl⟩, _, s', ⟨undo, rfl⟩, _, _, undone,
    (), _, rfl, rfl⟩, ?_⟩
  simp only [connected.prev, Option.getD_some]

end

end Log

/-- `DisconnectBlock` on the outcome of a block that `ConnectBlock` accepts is clean and gives the
view back exactly when every step of the block survives. (Such blocks have passed `CheckBlock`.) -/
theorem connectBlock_undoes_iff {env : ConnectEnv} {block : CBlock} {fAlreadyChecked : Bool}
    {s s' : ConnectState} (spentNull : s.view.coins.SpentNull)
    (notGenesis : block.getHash ≠ env.params.hashGenesisBlock)
    (noUndo : s.pindex.getUndoPos = none)
    (checked : fAlreadyChecked = true → ∃ (env' : CheckEnv) (mapBlockIndex : BlockMap)
      (chainActive : CChain) (fCheckMerkleRoot : Bool),
      checkBlock env' mapBlockIndex chainActive block fCheckMerkleRoot = .ok ())
    (h : connectBlock env block false fAlreadyChecked s = .ok () s') :
    (∃ s'', disconnectBlock env block s' = .ok true s'' ∧ s''.view = s.view) ↔
      AllGood exec SurvivesUndo [] s.view.coins (blockSteps block s.pindex.nHeight) := by
  obtain ⟨again, coins, done, connected⟩ := connectBlock_ok notGenesis noUndo h
  have generated : Generated done := by
    have : ∃ coinBase vtx, block.vtx = coinBase :: vtx ∧ coinBase.isCoinBase = true ∧
        ∀ tx ∈ vtx, tx.isCoinBase = false := by
      cases fAlreadyChecked with
      | true =>
        obtain ⟨_, _, _, _, passed⟩ := checked rfl
        exact coinBase_of_checkBlock passed
      | false => exact coinBase_of_checkBlock (by simpa [checkAgain] using again)
    obtain ⟨coinBase, vtx, hvtx, first, others⟩ := this
    exact connected.generated hvtx first others
  have restores : AllReadable (done.map Prod.snd).tail →
      (((revertAll revert ⟨coins, s'.node.mapStakeSpent, true⟩
          (blockLog s.pindex.nHeight done)).fClean = true ∧
        (revertAll revert ⟨coins, s'.node.mapStakeSpent, true⟩
          (blockLog s.pindex.nHeight done)).coins = s.view.coins) ↔
        AllGood exec SurvivesUndo [] s.view.coins (blockSteps block s.pindex.nHeight)) := by
    intro readable
    exact revertAll_restores_iff spentNull connected.executes_log
      (connected.readable generated readable) _
  constructor
  · rintro ⟨s'', disconnected, sameView⟩
    have loaded : ∃ vtxundo, loadUndo env block s' = .ok vtxundo := by
      simp only [disconnectBlock, validation_bind_ok, checking_ok] at disconnected
      obtain ⟨_, _, ⟨-, rfl⟩, vtxundo, _, ⟨loaded, -⟩, -⟩ := disconnected
      exact ⟨vtxundo, loaded⟩
    obtain ⟨vtxundo, loaded⟩ := loaded
    have readable := allReadable_of_loadUndo connected loaded
    obtain ⟨_, t, rfl, result, view⟩ := disconnectBlock_of_readable connected generated readable
    rw [result] at disconnected
    obtain ⟨clean, rfl⟩ := EStateM.Result.ok.inj disconnected
    refine (restores readable).mp ⟨clean, ?_⟩
    rw [← sameView, view]
  · intro allGood
    have readable := (readable_blockLog_iff _ generated).mp
      (readable_of_allGood connected.executes_log allGood)
    obtain ⟨clean, same⟩ := (restores readable).mpr allGood
    obtain ⟨s'', t, rfl, result, view⟩ := disconnectBlock_of_readable connected generated readable
    rw [clean] at result
    refine ⟨s'', result, ?_⟩
    rw [view, same]

/-! ## A block that spends a coinstake -/

def stakedCoins (fCoinStake : Bool) : FlatCoins :=
  FlatCoins.empty.put 7
    { fCoinStake, vout := [⟨0, []⟩, ⟨100 * COIN, [0x51]⟩], nHeight := 250, nVersion := 1 }

def restakingBlock : CBlock where
  nVersion := 4
  hashPrevBlock := 300
  hashMerkleRoot := 0
  nTime := 1600000000
  nBits := 0
  nNonce := 0
  hash := 1000
  vtx := [⟨20, 1, [{ prevout := COutPoint.null, scriptSig := [0x02, 0x01] }], [⟨0, []⟩], 0, []⟩,
    ⟨21, 1, [{ prevout := ⟨7, 1⟩ }, { prevout := ⟨7, 0⟩ }],
      [⟨0, []⟩, ⟨100 * COIN, [0x51]⟩], 0, []⟩]

def restakingState (fCoinStake : Bool) : ConnectState where
  node := { mapBlockIndex := straightMap 300 (by decide), chainActive := straightChain 300 }
  pindex :=
    { phashBlock := some 1000, pprev := some 300, nHeight := 300, nTime := 1600000000
      nStatus := { valid := 3, haveData := true } }
  view := ⟨stakedCoins fCoinStake, 300⟩


theorem stakedCoins_spentNull (fCoinStake : Bool) : (stakedCoins fCoinStake).SpentNull := by
  intro txid coins found
  rw [stakedCoins, FlatCoins.get_put] at found
  split at found
  · obtain ⟨-, rfl⟩ := CCoins.visible_eq_some.mp found
    apply CCoins.spentNull_cleanup
    intro out member spent
    simp only [mem_cons, not_mem_nil, or_false] at member
    rcases member with rfl | rfl <;> cases spent
  · cases found

theorem restakingBlock_connects (fCoinStake : Bool) :
    ∃ s', connectBlock lenientEnv restakingBlock false false (restakingState fCoinStake) =
      .ok () s' := by
  have accepted : (match connectBlock lenientEnv restakingBlock false false
      (restakingState fCoinStake) with | .ok () _ => true | .error _ _ => false) = true := by
    cases fCoinStake <;> decide +kernel
  cases result : connectBlock lenientEnv restakingBlock false false (restakingState fCoinStake) with
  | ok _ s' => exact ⟨s', rfl⟩
  | error => simp [result] at accepted

/-- Over the record of an ordinary transaction the block is undone. -/
theorem restakingBlock_undone :
    ∃ s' s'', connectBlock lenientEnv restakingBlock false false (restakingState false) =
        .ok () s' ∧
      disconnectBlock lenientEnv restakingBlock s' = .ok true s'' ∧
        s''.view = (restakingState false).view := by
  obtain ⟨s', connects⟩ := restakingBlock_connects false
  have undone := connectBlock_undoes_iff (stakedCoins_spentNull false)
    (by decide) rfl (by simp) connects
  obtain ⟨s'', disconnects, view⟩ := undone.mpr (by decide +kernel)
  exact ⟨s', s'', connects, disconnects, view⟩

/-- Over the record of a coinstake the block is disconnected cleanly, but the record comes back
without the mark of a coinstake, and with it without its maturity. -/
theorem restakingBlock_loses_coinStake :
    (restakingState true).view.coins.SpentNull ∧
      ∃ s' s'', connectBlock lenientEnv restakingBlock false false (restakingState true) =
          .ok () s' ∧
        disconnectBlock lenientEnv restakingBlock s' = .ok true s'' ∧
        (s''.view.coins.get 7).map CCoins.fCoinStake = some false ∧
        ((restakingState true).view.coins.get 7).map CCoins.fCoinStake = some true := by
  refine ⟨stakedCoins_spentNull true, ?_⟩
  have outcome : (match connectBlock lenientEnv restakingBlock false false
      (restakingState true) with
    | .ok () s' =>
      (match disconnectBlock lenientEnv restakingBlock s' with
      | .ok clean s'' =>
        clean && (s''.view.coins.get 7).map CCoins.fCoinStake == some false
      | .error _ _ => false)
    | .error _ _ => false) = true := by
    decide +kernel
  split at outcome
  · rename_i s' connects
    split at outcome
    · rename_i clean s'' disconnects
      simp only [Bool.and_eq_true, beq_iff_eq] at outcome
      obtain ⟨rfl, lost⟩ := outcome
      exact ⟨s', s'', connects, disconnects, lost, by decide +kernel⟩
    · cases outcome
  · cases outcome

end Esbcoin
