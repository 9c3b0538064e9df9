import Mathlib.Data.List.Sort
import Esbcoin.Chain.DiskBlockIndex
import Esbcoin.Validation.NoOverwrite
import Esbcoin.Validation.Tip

/-!
# What a call of ConnectBlock leaves behind

`ConnectBlock` with `fJustCheck`, and where it fails (`src/main.cpp:2178-2380`), and
`TestBlockValidity` (`main.cpp:3748-3774`), which is such a call for the template of a block. In
front of its last checks and of the point where a mere check returns, the call sets the supply
fields of its entry and writes the entry to the block database; only where these are there
already has the call written nothing.
-/

namespace Esbcoin

open StateRel CDiskBlockIndex

/-! ## What is compared -/

/-- What a start of the node reads under `'b'` and a hash (`txdb.cpp:82-85`). -/
def NodeState.readBlockIndex (node : NodeState) (hash : UInt256) : Option (List UInt8) :=
  (node.blockTreeDB.lookup hash).map fun pindex => (ofIndex pindex).serialize

/-- The tables of the node and its files are as they were. -/
structure NodeState.Unwritten (node node' : NodeState) : Prop where
  mapBlockIndex : ∀ hash, node'.mapBlockIndex.lookup hash = node.mapBlockIndex.lookup hash
  chainActive : node'.chainActive = node.chainActive
  mapStakeSpent : node'.mapStakeSpent = node.mapStakeSpent
  undoFiles : node'.undoFiles = node.undoFiles
  blockTreeDB : ∀ hash, node'.readBlockIndex hash = node.readBlockIndex hash
  txIndex : node'.txIndex = node.txIndex
  txFilter : node'.txFilter = node.txFilter

theorem NodeState.Unwritten.refl (node : NodeState) : node.Unwritten node :=
  ⟨fun _ => rfl, rfl, rfl, rfl, fun _ => rfl, rfl, rfl⟩

theorem NodeState.Unwritten.trans {a b c : NodeState} (h : a.Unwritten b) (h' : b.Unwritten c) :
    a.Unwritten c where
  mapBlockIndex hash := (h'.mapBlockIndex hash).trans (h.mapBlockIndex hash)
  chainActive := h'.chainActive.trans h.chainActive
  mapStakeSpent := h'.mapStakeSpent.trans h.mapStakeSpent
  undoFiles := h'.undoFiles.trans h.undoFiles
  blockTreeDB hash := (h'.blockTreeDB hash).trans (h.blockTreeDB hash)
  txIndex := h'.txIndex.trans h.txIndex
  txFilter := h'.txFilter.trans h.txFilter

/-- Everything but the view is as it was. -/
structure ConnectState.Unwritten (s s' : ConnectState) : Prop where
  pindex : s'.pindex = s.pindex
  node : s.node.Unwritten s'.node

theorem ConnectState.Unwritten.trans {a b c : ConnectState} (h : a.Unwritten b)
    (h' : b.Unwritten c) : a.Unwritten c :=
  ⟨h'.pindex.trans h.pindex, h.node.trans h'.node⟩

/-- A mere check, and a call that returns false, leave everything but the view as it was. -/
def LeavesRest (fJustCheck : Bool) (s : ConnectState) :
    EStateM.Result Failure ConnectState Unit → Prop
  | .ok _ s' => fJustCheck = true → s.Unwritten s'
  | .error failure s' => fJustCheck = true ∨ failure ≠ .crash → s.Unwritten s'

/-! ## TestBlockValidity -/

/-- `REJECT_OBSOLETE` (`main.h:108`). -/
def REJECT_OBSOLETE : UInt8 := 0x11

/-- `REJECT_CHECKPOINT` (`main.h:113`). -/
def REJECT_CHECKPOINT : UInt8 := 0x43

/-- What `TestBlockValidity` asks besides what `ConnectBlock` does: the checkpoints, in ascending
order. -/
structure TemplateEnv extends ConnectEnv where
  /-- `Checkpoints::fEnabled`. -/
  fEnabled : Bool
  mapCheckpoints : List (Int × UInt256)

/-- The times of at most `n` blocks, from an entry back (`chain.h:295-297`). -/
def timesBack (mapBlockIndex : BlockMap) : Nat → Option CBlockIndex → List Int
  | n + 1, some pindex =>
    pindex.getBlockTime :: timesBack mapBlockIndex n (mapBlockIndex.deref pindex.pprev)
  | _, _ => []

/-- `CBlockIndex::GetMedianTimePast` (`chain.h:287-301`). -/
def getMedianTimePast (mapBlockIndex : BlockMap) (pindex : CBlockIndex) : Int :=
  let pmedian := (timesBack mapBlockIndex 11 (some pindex)).insertionSort (· ≤ ·)
  pmedian.getD (pmedian.length / 2) 0

namespace TemplateEnv

variable (env : TemplateEnv)

/-- `Checkpoints::CheckBlock` (`checkpoints.cpp:31-42`). -/
def checkpointsCheckBlock (nHeight : Int) (hash : UInt256) : Bool :=
  !env.fEnabled || match env.mapCheckpoints.lookup nHeight with
    | none => true
    | some checkpoint => hash == checkpoint

/-- `Checkpoints::GetLastCheckpoint` (`checkpoints.cpp:87-101`). -/
def getLastCheckpoint (mapBlockIndex : BlockMap) : Option CBlockIndex :=
  if env.fEnabled then env.mapCheckpoints.reverse.findSome? fun i => mapBlockIndex.lookup i.2
  else none

/-- `ContextualCheckBlockHeader` (`main.cpp:3349-3402`). -/
def contextualCheckBlockHeader (node : NodeState) (block : CBlock) (pindexPrev : CBlockIndex) :
    Except Failure Unit := do
  let nHeight := pindexPrev.nHeight + 1
  if block.getHash = env.params.hashGenesisBlock then .ok ()
  else
    rejectIf (node.chainActive.height - nHeight ≥ env.params.maxReorganizationDepth)
      (.invalid { level := 1 })
    rejectIf (block.getBlockTime ≤ getMedianTimePast node.mapBlockIndex pindexPrev)
      (.invalid ⟨0, REJECT_INVALID, "time-too-old", false⟩)
    rejectIf (block.getBlockTime > freezeTime) (.invalid ⟨0, REJECT_INVALID, "time-end", false⟩)
    rejectIf (!env.checkpointsCheckBlock nHeight block.getHash)
      (.invalid ⟨100, REJECT_CHECKPOINT, "checkpoint mismatch", false⟩)
    rejectIf ((env.getLastCheckpoint node.mapBlockIndex).any fun pcheckpoint =>
      decide (nHeight < pcheckpoint.nHeight)) (.invalid { level := 0 })
    rejectIf (block.nVersion < 2) (.invalid ⟨0, REJECT_OBSOLETE, "bad-version", false⟩)

/-- `indexDummy` (`main.cpp:3754-3756`). -/
def indexDummy (block : CBlock) (pindexPrev : CBlockIndex) : CBlockIndex :=
  { CBlockIndex.ofBlock block with
    phashBlock := none
    pprev := pindexPrev.phashBlock
    nHeight := pindexPrev.nHeight + 1 }

/-- The checks of `TestBlockValidity` in front of `ConnectBlock` (`main.cpp:3751, 3758-3767`). -/
def checkTemplate (node : NodeState) (block : CBlock) (pindexPrev : CBlockIndex)
    (fCheckMerkleRoot : Bool) : Except Failure Unit := do
  rejectIf (pindexPrev.phashBlock != node.chainActive.tip) .crash
  env.contextualCheckBlockHeader node block pindexPrev
  checkBlock env.toCheckEnv node.mapBlockIndex node.chainActive block fCheckMerkleRoot
  contextualCheckBlock env.toCheckEnv node.chainActive block (some pindexPrev)

/-- `TestBlockValidity` (`main.cpp:3748-3774`), on a view over `pcoinsTip`. Its flag `fCheckPOW`
is not read. -/
def testBlockValidity (block : CBlock) (pindexPrev : CBlockIndex) (pcoinsTip : CoinsView)
    (fCheckMerkleRoot : Bool) : EStateM Failure NodeState Unit := fun node =>
  match env.checkTemplate node block pindexPrev fCheckMerkleRoot with
  | .error failure => .error failure node
  | .ok () =>
    match connectBlock env.toConnectEnv block true false
        ⟨node, indexDummy block pindexPrev, pcoinsTip⟩ with
    | .ok _ s => .ok () s.node
    | .error failure s => .error failure s.node

end TemplateEnv

/-! ## ConnectBlock in two parts -/

/-- The part of `ConnectBlock` in front of the supply record, for blocks other than the genesis
block (`main.cpp:2182-2290`). -/
def beforeSupply (env : ConnectEnv) (block : CBlock) (fJustCheck fAlreadyChecked : Bool) :
    Validation BlockTally := do
  checking (checkAgain env block fJustCheck fAlreadyChecked)
  checking fun s => rejectIf (s.pindex.pprev.getD 0 != s.view.hashBlock) .crash
  checking fun s => checkPeriod env.params block s.pindex
  checking (enforceBIP30 block)
  checking fun _ => rejectIf block.vtx.isEmpty .crash
  let s ← get
  connectTransactions env (s.pindex.nHeight ≥ env.getTotalBlocksEstimate) 0 block.vtx
    { pos := ⟨s.pindex.getBlockPos, getSizeOfCompactSize block.vtx.length⟩ }

/-- The part of `ConnectBlock` from the supply record on (`main.cpp:2292-2369`). -/
def fromSupply (env : ConnectEnv) (block : CBlock) (fJustCheck : Bool) (tally : BlockTally) :
    Validation Unit := do
  recordSupply env block tally
  checking (checkMint env block tally.nFees)
  checking fun _ => rejectIf (!tally.scriptsOk) (.invalid { level := 100 })
  if fJustCheck then pure () else writeBlock env block tally

theorem connectBlock_eq {env : ConnectEnv} {block : CBlock} {fJustCheck fAlreadyChecked : Bool}
    (other : block.getHash ≠ env.params.hashGenesisBlock) :
    connectBlock env block fJustCheck fAlreadyChecked =
      beforeSupply env block fJustCheck fAlreadyChecked >>= fromSupply env block fJustCheck := by
  simp only [connectBlock, connectNonGenesis, beforeSupply, if_neg other, bind_assoc]
  rfl

namespace ConnectState

/-- Only the view has changed. -/
def OnlyView (s s' : ConnectState) : Prop := s' = { s with view := s'.view }

theorem OnlyView.refl (s : ConnectState) : OnlyView s s := rfl

theorem OnlyView.trans {a b c : ConnectState} (h : OnlyView a b) (h' : OnlyView b c) :
    OnlyView a c := by
  unfold OnlyView at *
  rw [h', h]

theorem OnlyView.unwritten {s s' : ConnectState} (h : OnlyView s s') : s.Unwritten s' := by
  rw [h]
  exact ⟨rfl, .refl s.node⟩

/-- The entry with the supply of a block with these totals (`main.cpp:2293-2295`). -/
def suppliedEntry (s : ConnectState) (tally : BlockTally) : CBlockIndex :=
  let nMoneySupplyPrev := (s.pindexPrev.map CBlockIndex.nMoneySupply).getD 0
  let nMoneySupply := nMoneySupplyPrev + tally.nValueOut - tally.nValueIn
  { s.pindex with nMoneySupply, nMint := nMoneySupply - nMoneySupplyPrev }

/-- The state behind the supply record, whether it could be written or not. -/
def recorded (env : ConnectEnv) (block : CBlock) (tally : BlockTally) (s : ConnectState) :
    ConnectState :=
  let s := s.setIndex (s.suppliedEntry tally)
  if env.writeBlockIndex then { s with node := { s.node with
    blockTreeDB := s.node.blockTreeDB.insert block.getHash s.pindex } }
  else s

/-- What the supply record would write is there already. -/
structure SupplyRecorded (env : ConnectEnv) (block : CBlock) (tally : BlockTally)
    (s : ConnectState) : Prop where
  entry : s.suppliedEntry tally = s.pindex
  disk : env.writeBlockIndex = true →
    s.node.readBlockIndex block.getHash = some (ofIndex s.pindex).serialize

end ConnectState

/-! ## In front of the record -/

section Front

open ConnectState

variable {env : ConnectEnv} {block : CBlock} {fJustCheck fAlreadyChecked : Bool}

private theorem onlyView_checking {α : Type} (check : ConnectState → Except Failure α) :
    Keeps OnlyView (checking check) :=
  Keeps.of_same OnlyView.refl fun s => by
    unfold checking
    split <;> rfl

private theorem onlyView_bind {α β : Type} {x : Validation α} {k : α → Validation β}
    (first : Keeps OnlyView x) (rest : ∀ a, Keeps OnlyView (k a)) : Keeps OnlyView (x >>= k) :=
  Keeps.bind (R := OnlyView) (fun _ _ _ => OnlyView.trans) first rest

theorem onlyView_connectTransactions (fScriptChecks : Bool) (i : Nat) (vtx : List CTransaction)
    (tally : BlockTally) : Keeps OnlyView (connectTransactions env fScriptChecks i vtx tally) := by
  induction vtx generalizing i tally with
  | nil => exact Keeps.pure OnlyView.refl tally
  | cons tx vtx ih =>
    refine onlyView_bind (fun s => ?_) fun tally => ih (i + 1) tally
    unfold connectTransaction
    simp only
    split <;> rfl

/-- The part in front of the record changes the view only, whether it fails or not. -/
theorem onlyView_beforeSupply :
    Keeps OnlyView (beforeSupply env block fJustCheck fAlreadyChecked) :=
  onlyView_bind (onlyView_checking _) fun _ => onlyView_bind (onlyView_checking _) fun _ =>
    onlyView_bind (onlyView_checking _) fun _ => onlyView_bind (onlyView_checking _) fun _ =>
      onlyView_bind (onlyView_checking _) fun _ =>
        onlyView_bind (Keeps.get OnlyView.refl) fun _ => onlyView_connectTransactions _ _ _ _

theorem onlyView_setBestBlock : Keeps OnlyView setBestBlock := by
  intro s
  unfold setBestBlock
  split <;> rfl

/-- For the genesis block a call changes the view only. -/
theorem onlyView_connectBlock_genesis (genesis : block.getHash = env.params.hashGenesisBlock) :
    Keeps OnlyView (connectBlock env block fJustCheck fAlreadyChecked) := by
  unfold connectBlock
  rw [if_pos genesis]
  exact onlyView_bind (onlyView_checking _) fun _ => onlyView_bind (onlyView_checking _) fun _ =>
    onlyView_setBestBlock

end Front

/-! ## The record -/

section Record

open ConnectState

variable {env : ConnectEnv} {block : CBlock} {tally : BlockTally} {s : ConnectState}

theorem recordSupply_eq : recordSupply env block tally s =
    if env.writeBlockIndex then .ok () (s.recorded env block tally)
    else .error (.error "Connect() : WriteBlockIndex for pindex failed")
      (s.recorded env block tally) := by
  unfold recordSupply recorded suppliedEntry
  cases env.writeBlockIndex <;> rfl

theorem recorded_pindex : (s.recorded env block tally).pindex = s.suppliedEntry tally := by
  unfold recorded
  cases env.writeBlockIndex <;> rfl

/-- A change of the entry leaves the other tables alone. -/
theorem setIndex_others (s : ConnectState) (pindex : CBlockIndex) :
    (s.setIndex pindex).node.chainActive = s.node.chainActive ∧
      (s.setIndex pindex).node.mapStakeSpent = s.node.mapStakeSpent ∧
      (s.setIndex pindex).node.undoFiles = s.node.undoFiles ∧
      (s.setIndex pindex).node.blockTreeDB = s.node.blockTreeDB ∧
      (s.setIndex pindex).node.txIndex = s.node.txIndex ∧
      (s.setIndex pindex).node.txFilter = s.node.txFilter := by
  unfold setIndex
  split <;> exact ⟨rfl, rfl, rfl, rfl, rfl, rfl⟩

/-- An entry that is not changed is the one in the index still. -/
theorem lookup_setIndex_self (filed : s.Filed) (hash : UInt256) :
    (s.setIndex s.pindex).node.mapBlockIndex.lookup hash = s.node.mapBlockIndex.lookup hash := by
  unfold setIndex
  cases own : s.pindex.phashBlock with
  | none => rfl
  | some key =>
    rw [AssocMap.lookup_insert_eq]
    split
    · rename_i equal
      rw [equal, filed key own]
    · rfl

theorem readBlockIndex_recorded (hash : UInt256) :
    (s.recorded env block tally).node.readBlockIndex hash =
      if env.writeBlockIndex = true ∧ hash = block.getHash then
        some (ofIndex (s.suppliedEntry tally)).serialize
      else s.node.readBlockIndex hash := by
  have untouched := (setIndex_others s (s.suppliedEntry tally)).2.2.2.1
  unfold recorded NodeState.readBlockIndex
  cases env.writeBlockIndex with
  | false => simp [untouched]
  | true =>
    simp only [if_true, true_and, untouched, AssocMap.lookup_insert_eq]
    split
    · rfl
    · rfl

theorem unwritten_setIndex_self (filed : s.Filed) : s.Unwritten (s.setIndex s.pindex) := by
  obtain ⟨chain, stake, undo, disk, tx, filter⟩ := setIndex_others s s.pindex
  refine ⟨rfl, lookup_setIndex_self filed, chain, stake, undo, fun hash => ?_, tx, filter⟩
  unfold NodeState.readBlockIndex
  rw [disk]

/-- Nothing is written where the supply of the block is recorded already. -/
theorem unwritten_recorded (filed : s.Filed) :
    s.Unwritten (s.recorded env block tally) ↔ s.SupplyRecorded env block tally := by
  constructor
  · intro unwritten
    have entry : s.suppliedEntry tally = s.pindex := recorded_pindex.symm.trans unwritten.pindex
    refine ⟨entry, fun written => ?_⟩
    have read := unwritten.node.blockTreeDB block.getHash
    rw [readBlockIndex_recorded, if_pos ⟨written, rfl⟩, entry] at read
    exact read.symm
  intro already
  have entry := already.entry
  refine ⟨recorded_pindex.trans entry, ?_⟩
  have disk : ∀ hash, (s.recorded env block tally).node.readBlockIndex hash =
      s.node.readBlockIndex hash := by
    intro hash
    rw [readBlockIndex_recorded]
    split
    · rename_i at_block
      rw [entry, at_block.2, already.disk at_block.1]
    · rfl
  have map := lookup_setIndex_self filed
  obtain ⟨chain, stake, undo, -, tx, filter⟩ := setIndex_others s s.pindex
  unfold recorded at disk ⊢
  rw [entry] at disk ⊢
  cases written : env.writeBlockIndex with
  | false =>
    rw [written] at disk
    exact ⟨map, chain, stake, undo, disk, tx, filter⟩
  | true =>
    rw [written] at disk
    exact ⟨map, chain, stake, undo, disk, tx, filter⟩

end Record

/-! ## Behind the record -/

/-- The undo data of the block can not be written (`main.cpp:2328-2332`). -/
def ConnectState.UndoFails (env : ConnectEnv) (s : ConnectState) : Prop :=
  s.pindex.getUndoPos = none ∧ (env.findUndoPos = false ∨ env.writeToDisk = none)

/-- The transaction index can not be written (`main.cpp:2344-2346`). -/
def TxIndexFails (env : ConnectEnv) : Prop := env.fTxIndex = true ∧ env.writeTxIndex = false

/-- The undo data and the validity of the block are there already (`main.cpp:2326-2342`). -/
def ConnectState.UndoInPlace (s : ConnectState) : Prop :=
  s.pindex.getUndoPos.isSome = true ∧
    s.pindex.nStatus.raiseValidity BLOCK_VALID_SCRIPTS = s.pindex.nStatus

/-- The checks behind the record pass (`main.cpp:2298-2316`). -/
structure PassesBehind (env : ConnectEnv) (block : CBlock) (tally : BlockTally)
    (s : ConnectState) : Prop where
  written : env.writeBlockIndex = true
  mint : checkMint env block tally.nFees (s.recorded env block tally) = .ok ()
  scripts : tally.scriptsOk = true

/-- The call fails at the supply record or behind it. -/
def RejectedBehind (env : ConnectEnv) (block : CBlock) (tally : BlockTally)
    (s : ConnectState) : Prop :=
  env.writeBlockIndex = false ∨
  (env.writeBlockIndex = true ∧ ∃ failure, failure ≠ .crash ∧
    checkMint env block tally.nFees (s.recorded env block tally) = .error failure) ∨
  (env.writeBlockIndex = true ∧
    checkMint env block tally.nFees (s.recorded env block tally) = .ok () ∧
      tally.scriptsOk = false) ∨
  (PassesBehind env block tally s ∧ (s.UndoFails env ∨ TxIndexFails env))

/-- What a block that reaches the record must find to leave everything but the view as it was. -/
structure WritesNothingNew (env : ConnectEnv) (block : CBlock) (fJustCheck : Bool)
    (tally : BlockTally) (s : ConnectState) : Prop where
  supply : fJustCheck = true ∨ RejectedBehind env block tally s → s.SupplyRecorded env block tally
  undo : fJustCheck = false → PassesBehind env block tally s → ¬ s.UndoFails env →
    TxIndexFails env → s.UndoInPlace

section Behind

open ConnectState

variable {env : ConnectEnv} {block : CBlock} {tally : BlockTally} {s : ConnectState}
variable {fJustCheck : Bool}

theorem fromSupply_unwritable (unwritable : env.writeBlockIndex = false) :
    fromSupply env block fJustCheck tally s =
      .error (.error "Connect() : WriteBlockIndex for pindex failed")
        (s.recorded env block tally) := by
  show EStateM.bind (recordSupply env block tally) _ s = _
  unfold EStateM.bind
  rw [recordSupply_eq, unwritable]
  rfl

theorem fromSupply_overMint (written : env.writeBlockIndex = true) {failure : Failure}
    (mint : checkMint env block tally.nFees (s.recorded env block tally) = .error failure) :
    fromSupply env block fJustCheck tally s = .error failure (s.recorded env block tally) := by
  show EStateM.bind (recordSupply env block tally) _ s = _
  unfold EStateM.bind
  rw [recordSupply_eq, written]
  show EStateM.bind (checking (checkMint env block tally.nFees)) _ _ = _
  unfold EStateM.bind checking
  rw [mint]

theorem fromSupply_badScripts (written : env.writeBlockIndex = true)
    (mint : checkMint env block tally.nFees (s.recorded env block tally) = .ok ())
    (scripts : tally.scriptsOk = false) :
    fromSupply env block fJustCheck tally s =
      .error (.invalid { level := 100 }) (s.recorded env block tally) := by
  show EStateM.bind (recordSupply env block tally) _ s = _
  unfold EStateM.bind
  rw [recordSupply_eq, written]
  show EStateM.bind (checking (checkMint env block tally.nFees)) _ _ = _
  unfold EStateM.bind checking
  rw [mint, scripts]
  rfl

theorem fromSupply_passes (passes : PassesBehind env block tally s) :
    fromSupply env block fJustCheck tally s = if fJustCheck then .ok () (s.recorded env block tally)
      else writeBlock env block tally (s.recorded env block tally) := by
  show EStateM.bind (recordSupply env block tally) _ s = _
  unfold EStateM.bind
  rw [recordSupply_eq, passes.written]
  show EStateM.bind (checking (checkMint env block tally.nFees)) _ _ = _
  unfold EStateM.bind checking
  rw [passes.mint, passes.scripts]
  cases fJustCheck <;> rfl

theorem writeUndo_fails (vtxundo : List CTxUndo) (fails : s.UndoFails env) :
    ∃ failure, failure ≠ .crash ∧ writeUndo env vtxundo s = .error failure s := by
  obtain ⟨noUndo, unwritable⟩ := fails
  unfold writeUndo
  rw [noUndo]
  by_cases found : env.findUndoPos = true
  · have noPos : env.writeToDisk = none := unwritable.resolve_left (by simp [found])
    refine ⟨.abort "Failed to write undo data", by simp, ?_⟩
    simp [found, noPos]
  · refine ⟨.error "ConnectBlock() : FindUndoPos failed", by simp, ?_⟩
    simp [found]

/-- The undo data is written, or there is some and only the validity is raised. -/
def WroteUndo (s s' : ConnectState) : Prop :=
  s'.node.blockTreeDB = s.node.blockTreeDB ∧
    (s.pindex.getUndoPos = none ∧ s'.pindex.nStatus.haveUndo = true ∨
      s.pindex.getUndoPos.isSome = true ∧
        s'.pindex = { s.pindex with
          nStatus := s.pindex.nStatus.raiseValidity BLOCK_VALID_SCRIPTS } ∧
        (s.Filed → s.UndoInPlace → s.Unwritten s'))

theorem writeUndo_goes (vtxundo : List CTxUndo) (goes : ¬ s.UndoFails env)
    (behind : s.pindex.pprev.isSome = true) :
    ∃ s', writeUndo env vtxundo s = .ok () s' ∧ WroteUndo s s' := by
  unfold WroteUndo
  unfold writeUndo
  cases undo : s.pindex.getUndoPos with
  | none =>
    have found : env.findUndoPos = true := by
      by_contra missing
      exact goes ⟨undo, .inl (by simpa using missing)⟩
    obtain ⟨nPos, position⟩ := Option.ne_none_iff_exists'.mp fun missing =>
      goes ⟨undo, .inr missing⟩
    obtain ⟨hashPrev, previous⟩ := Option.isSome_iff_exists.mp behind
    simp only [found, position, previous, Option.isSome_none, Bool.false_and, Bool.not_true,
      if_false, Bool.false_eq_true]
    refine ⟨_, rfl, (setIndex_others _ _).2.2.2.1, .inl ⟨trivial, ?_⟩⟩
    exact BlockStatus.raiseValidity_haveUndo _ _
  | some pos =>
    simp only [Option.isSome_some, Bool.true_and, if_true]
    by_cases valid : s.pindex.nStatus.isValid BLOCK_VALID_SCRIPTS = true
    · rw [if_pos valid]
      have raised : s.pindex.nStatus.raiseValidity BLOCK_VALID_SCRIPTS = s.pindex.nStatus := by
        simp only [BlockStatus.isValid, Bool.and_eq_true, Bool.not_eq_true',
          decide_eq_true_eq] at valid
        simp [BlockStatus.raiseValidity, valid.1, Nat.not_lt.mpr valid.2]
      refine ⟨s, rfl, rfl, .inr ⟨trivial, ?_, fun _ _ => ⟨rfl, .refl _⟩⟩⟩
      rw [raised]
    · rw [if_neg valid]
      refine ⟨_, rfl, (setIndex_others _ _).2.2.2.1, .inr ⟨trivial, rfl, fun filed place => ?_⟩⟩
      rw [place.2]
      exact unwritten_setIndex_self filed

theorem pprev_of_passesBehind (passes : PassesBehind env block tally s) :
    s.pindex.pprev.isSome = true := by
  have mint := passes.mint
  unfold checkMint pindexPrev at mint
  rw [recorded_pindex] at mint
  simp only [bind_ok, orCrash_eq_ok] at mint
  obtain ⟨_, found, -⟩ := mint
  show (s.suppliedEntry tally).pprev.isSome = true
  cases previous : (s.suppliedEntry tally).pprev with
  | none => rw [previous] at found; cases found
  | some => rfl

/-- The undo data behind the record is nothing new where both the supply and the undo data were
there. -/
theorem unwritten_of_wroteUndo (filed : s.Filed) {s' : ConnectState}
    (wrote : WroteUndo (s.recorded env block tally) s') :
    s.Unwritten s' ↔ s.SupplyRecorded env block tally ∧ s.UndoInPlace := by
  obtain ⟨disk, wrote⟩ := wrote
  have throughRead : ∀ hash, s'.node.readBlockIndex hash =
      (s.recorded env block tally).node.readBlockIndex hash := by
    intro hash
    unfold NodeState.readBlockIndex
    rw [disk]
  constructor
  · intro unwritten
    rw [recorded_pindex] at wrote
    rcases wrote with ⟨noUndo, haveUndo⟩ | ⟨undo, entry, -⟩
    · have absent : s.pindex.getUndoPos = none := noUndo
      rw [unwritten.pindex] at haveUndo
      unfold CBlockIndex.getUndoPos at absent
      rw [haveUndo] at absent
      cases absent
    rw [unwritten.pindex] at entry
    have status : s.pindex.nStatus.raiseValidity BLOCK_VALID_SCRIPTS = s.pindex.nStatus :=
      (congrArg CBlockIndex.nStatus entry).symm
    have same : s.suppliedEntry tally = s.pindex := by
      refine Eq.trans ?_ entry.symm
      show _ = { s.suppliedEntry tally with
        nStatus := s.pindex.nStatus.raiseValidity BLOCK_VALID_SCRIPTS }
      rw [status]
      rfl
    refine ⟨⟨same, fun written => ?_⟩, undo, status⟩
    have read := unwritten.node.blockTreeDB block.getHash
    rw [throughRead, readBlockIndex_recorded, if_pos ⟨written, rfl⟩, same] at read
    exact read.symm
  · rintro ⟨already, place⟩
    have kept := (unwritten_recorded filed).mpr already
    have samePindex : (s.recorded env block tally).pindex = s.pindex :=
      recorded_pindex.trans already.entry
    rcases wrote with ⟨noUndo, -⟩ | ⟨-, -, quiet⟩
    · have undo := place.1
      rw [← samePindex, noUndo] at undo
      cases undo
    refine kept.trans (quiet (fun hash own => ?_) ?_)
    · rw [samePindex] at own ⊢
      rw [kept.node.mapBlockIndex hash, filed hash own]
    · unfold UndoInPlace
      rw [samePindex]
      exact place

/-- The call behind the point where a mere check returns. -/
theorem leavesRest_writeBlock (filed : s.Filed) (passes : PassesBehind env block tally s) :
    LeavesRest false s (writeBlock env block tally (s.recorded env block tally)) ↔
      (s.UndoFails env ∨ TxIndexFails env → s.SupplyRecorded env block tally) ∧
        (¬ s.UndoFails env → TxIndexFails env → s.UndoInPlace) := by
  have place : (s.recorded env block tally).pindex = s.suppliedEntry tally := recorded_pindex
  have sameFails : (s.recorded env block tally).UndoFails env ↔ s.UndoFails env := by
    unfold UndoFails
    rw [place]
    rfl
  show LeavesRest false s (EStateM.bind (writeUndo env tally.vtxundo) _ _) ↔ _
  unfold EStateM.bind
  by_cases undoFails : s.UndoFails env
  · obtain ⟨failure, noCrash, result⟩ :=
      writeUndo_fails tally.vtxundo (sameFails.mpr undoFails)
    rw [result]
    simp only [LeavesRest, noCrash, ne_eq, not_false_eq_true, or_true, true_implies, undoFails,
      true_or, not_true_eq_false, false_implies, and_true]
    exact unwritten_recorded filed
  obtain ⟨s', result, wrote⟩ := writeUndo_goes tally.vtxundo
    (fun fails => undoFails (sameFails.mp fails))
    (by rw [place]; exact pprev_of_passesBehind passes)
  rw [result]
  show LeavesRest false s (EStateM.bind (writeTxIndex env tally.vPos) _ s') ↔ _
  unfold EStateM.bind
  by_cases txFails : TxIndexFails env
  · have aborts : writeTxIndex env tally.vPos s' =
        .error (.abort "Failed to write transaction index") s' := by
      simp [writeTxIndex, txFails.1, txFails.2]
    rw [aborts]
    simp only [LeavesRest, undoFails, txFails, or_true, true_implies, not_false_eq_true]
    refine Iff.trans ?_ (unwritten_of_wroteUndo filed wrote)
    simp
  simp only [undoFails, txFails, or_self, false_implies, implies_true, and_self, iff_true]
  have goes : ∃ s'', writeTxIndex env tally.vPos s' = .ok () s'' := by
    unfold writeTxIndex
    by_cases indexed : env.fTxIndex = true
    · have writes : env.writeTxIndex = true := by
        by_contra stuck
        exact txFails ⟨indexed, by simpa using stuck⟩
      simp [indexed, writes]
    · simp [indexed]
  obtain ⟨s'', indexes⟩ := goes
  rw [indexes]
  show LeavesRest false s (setBestBlock _)
  unfold setBestBlock
  split
  · simp [LeavesRest]
  · simp [LeavesRest]

/-- The call from the record on. -/
theorem leavesRest_fromSupply (filed : s.Filed) :
    LeavesRest fJustCheck s (fromSupply env block fJustCheck tally s) ↔
      WritesNothingNew env block fJustCheck tally s := by
  have errs : ∀ failure, LeavesRest fJustCheck s
      (.error failure (s.recorded env block tally)) ↔
        (fJustCheck = true ∨ failure ≠ .crash → s.SupplyRecorded env block tally) :=
    fun failure => by simp only [LeavesRest, unwritten_recorded filed]
  by_cases written : env.writeBlockIndex = true
  · cases mint : checkMint env block tally.nFees (s.recorded env block tally) with
    | error failure =>
      have stuck : ¬ PassesBehind env block tally s := fun passes => by
        have := passes.mint
        rw [mint] at this
        cases this
      rw [fromSupply_overMint written mint, errs]
      constructor
      · refine fun leaves => ⟨fun cause => leaves ?_, fun _ passes => absurd passes stuck⟩
        rcases cause with just | unwritable | ⟨-, failure', noCrash, equal⟩ | ⟨-, equal, -⟩ | passes
        · exact .inl just
        · simp [written] at unwritable
        · rw [mint] at equal
          cases equal
          exact .inr noCrash
        · rw [mint] at equal
          cases equal
        · exact absurd passes.1 stuck
      · exact fun nothing cause =>
          nothing.supply (cause.imp_right fun noCrash =>
            .inr (.inl ⟨written, failure, noCrash, mint⟩))
    | ok _ =>
      cases scripts : tally.scriptsOk with
      | false =>
        rw [fromSupply_badScripts written mint scripts, errs]
        constructor
        · refine fun leaves => ⟨fun _ => leaves (.inr (by simp)), fun _ passes => ?_⟩
          exact absurd passes.scripts (by simp [scripts])
        · exact fun nothing _ => nothing.supply (.inr (.inr (.inr (.inl ⟨written, mint, scripts⟩))))
      | true =>
        have passes : PassesBehind env block tally s := ⟨written, mint, scripts⟩
        have rejected : RejectedBehind env block tally s ↔ s.UndoFails env ∨ TxIndexFails env := by
          unfold RejectedBehind
          simp [written, mint, scripts, passes]
        rw [fromSupply_passes passes]
        cases fJustCheck with
        | true =>
          show (true = true → s.Unwritten _) ↔ _
          rw [unwritten_recorded filed]
          exact ⟨fun already => ⟨fun _ => already rfl, fun later => by cases later⟩,
            fun nothing _ => nothing.supply (.inl rfl)⟩
        | false =>
          simp only [Bool.false_eq_true, if_false]
          rw [leavesRest_writeBlock filed passes, ← rejected]
          constructor
          · rintro ⟨supply, undo⟩
            exact ⟨fun cause => supply (cause.resolve_left (by simp)), fun _ _ => undo⟩
          · exact fun nothing => ⟨fun cause => nothing.supply (.inr cause), nothing.undo rfl passes⟩
  · have unwritable : env.writeBlockIndex = false := by simpa using written
    rw [fromSupply_unwritable unwritable, errs]
    constructor
    · refine fun leaves => ⟨fun _ => leaves (.inr (by simp)), fun _ passes => ?_⟩
      exact absurd passes.written written
    · exact fun nothing _ => nothing.supply (.inr (.inl unwritable))

end Behind

/-! ## The whole calls -/

section Calls

open ConnectState TemplateEnv

variable {env : ConnectEnv} {block : CBlock} {fJustCheck fAlreadyChecked : Bool}
variable {s : ConnectState}

/-- A call for a block other than the genesis block ends in front of the record, or goes on there
with nothing changed but the view. -/
theorem connectBlock_cases (fJustCheck fAlreadyChecked : Bool) (s : ConnectState)
    (other : block.getHash ≠ env.params.hashGenesisBlock) :
    (∃ failure s', beforeSupply env block fJustCheck fAlreadyChecked s = .error failure s' ∧
        OnlyView s s' ∧
        connectBlock env block fJustCheck fAlreadyChecked s = .error failure s') ∨
      ∃ tally s', beforeSupply env block fJustCheck fAlreadyChecked s = .ok tally s' ∧
        OnlyView s s' ∧
        connectBlock env block fJustCheck fAlreadyChecked s =
          fromSupply env block fJustCheck tally s' := by
  have view : OnlyView s (stateOf (beforeSupply env block fJustCheck fAlreadyChecked s)) :=
    onlyView_beforeSupply s
  rw [connectBlock_eq other]
  cases front : beforeSupply env block fJustCheck fAlreadyChecked s with
  | error failure s' =>
    rw [front] at view
    refine .inl ⟨failure, s', rfl, view, ?_⟩
    show EStateM.bind _ _ s = _
    unfold EStateM.bind
    rw [front]
  | ok tally s' =>
    rw [front] at view
    refine .inr ⟨tally, s', rfl, view, ?_⟩
    show EStateM.bind _ _ s = _
    unfold EStateM.bind
    rw [front]

/-- What a call finds to be recorded is no matter of the view. -/
theorem writesNothingNew_congr {s' : ConnectState} (h : OnlyView s s') {tally : BlockTally} :
    WritesNothingNew env block fJustCheck tally s' ↔
      WritesNothingNew env block fJustCheck tally s := by
  have node : (s'.recorded env block tally).node = (s.recorded env block tally).node := by
    rw [h]
    unfold recorded
    cases env.writeBlockIndex <;> rfl
  have pindex : (s'.recorded env block tally).pindex = (s.recorded env block tally).pindex := by
    rw [recorded_pindex, recorded_pindex, h]
    rfl
  have mint : checkMint env block tally.nFees (s'.recorded env block tally) =
      checkMint env block tally.nFees (s.recorded env block tally) := by
    unfold checkMint pindexPrev
    rw [node, pindex]
  have passes : PassesBehind env block tally s' ↔ PassesBehind env block tally s :=
    ⟨fun ⟨written, passes, scripts⟩ => ⟨written, mint ▸ passes, scripts⟩,
      fun ⟨written, passes, scripts⟩ => ⟨written, mint.symm ▸ passes, scripts⟩⟩
  have same : s'.pindex = s.pindex := by rw [h]
  have supply : s'.SupplyRecorded env block tally ↔ s.SupplyRecorded env block tally := by
    rw [h]
    exact ⟨fun ⟨entry, disk⟩ => ⟨entry, disk⟩, fun ⟨entry, disk⟩ => ⟨entry, disk⟩⟩
  have fails : s'.UndoFails env ↔ s.UndoFails env := by
    unfold UndoFails
    rw [same]
  have place : s'.UndoInPlace ↔ s.UndoInPlace := by
    unfold UndoInPlace
    rw [same]
  have rejected : RejectedBehind env block tally s' ↔ RejectedBehind env block tally s := by
    unfold RejectedBehind
    rw [mint, passes, fails]
  constructor
  · rintro ⟨supply', undo'⟩
    rw [rejected, supply] at supply'
    rw [passes, fails, place] at undo'
    exact ⟨supply', undo'⟩
  rintro ⟨supply', undo'⟩
  rw [← rejected, ← supply] at supply'
  rw [← passes, ← fails, ← place] at undo'
  exact ⟨supply', undo'⟩

/-- A call leaves everything but the view as it was where the block does not reach the record, or
finds there what it would write. -/
theorem leavesRest_connectBlock (filed : s.Filed) :
    LeavesRest fJustCheck s (connectBlock env block fJustCheck fAlreadyChecked s) ↔
      (block.getHash ≠ env.params.hashGenesisBlock → ∀ tally s',
        beforeSupply env block fJustCheck fAlreadyChecked s = .ok tally s' →
          WritesNothingNew env block fJustCheck tally s) := by
  have spared : ∀ result : EStateM.Result Failure ConnectState Unit,
      OnlyView s (stateOf result) → LeavesRest fJustCheck s result := by
    intro result view
    cases result with
    | ok _ s' => exact fun _ => OnlyView.unwritten view
    | error failure s' => exact fun _ => OnlyView.unwritten view
  by_cases genesis : block.getHash = env.params.hashGenesisBlock
  · exact ⟨fun _ other => absurd genesis other,
      fun _ => spared _ (onlyView_connectBlock_genesis genesis s)⟩
  rcases connectBlock_cases fJustCheck fAlreadyChecked s genesis with
    ⟨failure, s', front, view, result⟩ | ⟨tally, s', front, view, result⟩
  · rw [result]
    refine ⟨fun _ _ tally s'' reached => ?_, fun _ => spared _ view⟩
    rw [front] at reached
    cases reached
  have filed' : s'.Filed := by
    rw [view]
    exact filed
  have around : LeavesRest fJustCheck s (fromSupply env block fJustCheck tally s') ↔
      LeavesRest fJustCheck s' (fromSupply env block fJustCheck tally s') := by
    have same : ∀ s'', s.Unwritten s'' ↔ s'.Unwritten s'' := by
      intro s''
      rw [view]
      exact ⟨fun ⟨entry, node⟩ => ⟨entry, node⟩, fun ⟨entry, node⟩ => ⟨entry, node⟩⟩
    cases fromSupply env block fJustCheck tally s' with
    | ok _ s'' => simp only [LeavesRest, same]
    | error failure s'' => simp only [LeavesRest, same]
  rw [result, around, leavesRest_fromSupply filed', writesNothingNew_congr view]
  constructor
  · intro nothing _ tally' s'' reached
    rw [front] at reached
    cases reached
    exact nothing
  · exact fun nothing => nothing genesis tally s' front

/-- A mere check that reaches the record ends behind it. -/
theorem stateOf_fromSupply_justCheck (tally : BlockTally) (s : ConnectState) :
    stateOf (fromSupply env block true tally s) = s.recorded env block tally := by
  by_cases written : env.writeBlockIndex = true
  · cases mint : checkMint env block tally.nFees (s.recorded env block tally) with
    | error failure => rw [fromSupply_overMint written mint, stateOf_error]
    | ok _ =>
      cases scripts : tally.scriptsOk with
      | false => rw [fromSupply_badScripts written mint scripts, stateOf_error]
      | true => rw [fromSupply_passes ⟨written, mint, scripts⟩, if_pos rfl, stateOf_ok]
  · rw [fromSupply_unwritable (by simpa using written), stateOf_error]

/-- The record of an entry without a hash goes to the block database only. -/
theorem unwritten_recorded_dummy (env : ConnectEnv) (block : CBlock) (tally : BlockTally)
    (dummy : s.pindex.phashBlock = none) :
    s.node.Unwritten (s.recorded env block tally).node ↔ (env.writeBlockIndex = true →
      s.node.readBlockIndex block.getHash =
        some (ofIndex (s.suppliedEntry tally)).serialize) := by
  constructor
  · intro unwritten written
    have read := unwritten.blockTreeDB block.getHash
    rw [readBlockIndex_recorded, if_pos ⟨written, rfl⟩] at read
    exact read.symm
  intro already
  have disk : ∀ hash, (s.recorded env block tally).node.readBlockIndex hash =
      s.node.readBlockIndex hash := by
    intro hash
    rw [readBlockIndex_recorded]
    split
    · rename_i atBlock
      rw [atBlock.2, already atBlock.1]
    · rfl
  have alone : (s.setIndex (s.suppliedEntry tally)).node = s.node := by
    unfold setIndex
    rw [show (s.suppliedEntry tally).phashBlock = none from dummy]
  unfold recorded at disk ⊢
  cases written : env.writeBlockIndex with
  | false =>
    simp only [Bool.false_eq_true, if_false, alone]
    exact .refl s.node
  | true =>
    rw [written] at disk
    simp only [if_true, alone] at disk ⊢
    exact ⟨fun _ => rfl, rfl, rfl, rfl, disk, rfl, rfl⟩

/-- `TestBlockValidity` leaves the node as it was where the template does not reach the record, or
the block database has the very record already. -/
theorem unwritten_testBlockValidity (env : TemplateEnv) (block : CBlock) (pindexPrev : CBlockIndex)
    (pcoinsTip : CoinsView) (fCheckMerkleRoot : Bool) (node : NodeState) :
    node.Unwritten
        (stateOf (env.testBlockValidity block pindexPrev pcoinsTip fCheckMerkleRoot node)) ↔
      (env.checkTemplate node block pindexPrev fCheckMerkleRoot = .ok () →
        block.getHash ≠ env.params.hashGenesisBlock → ∀ tally s',
          beforeSupply env.toConnectEnv block true false
              ⟨node, indexDummy block pindexPrev, pcoinsTip⟩ = .ok tally s' →
            env.writeBlockIndex = true → node.readBlockIndex block.getHash =
              some (ofIndex (ConnectState.suppliedEntry
                ⟨node, indexDummy block pindexPrev, pcoinsTip⟩ tally)).serialize) := by
  unfold testBlockValidity
  cases checks : env.checkTemplate node block pindexPrev fCheckMerkleRoot with
  | error failure => exact ⟨fun _ passed => (by cases passed), fun _ => .refl node⟩
  | ok _ =>
    let start : ConnectState := ⟨node, indexDummy block pindexPrev, pcoinsTip⟩
    have ends : stateOf (match connectBlock env.toConnectEnv block true false start with
        | .ok _ s => (.ok () s.node : EStateM.Result Failure NodeState Unit)
        | .error failure s => .error failure s.node) =
          (stateOf (connectBlock env.toConnectEnv block true false start)).node := by
      cases connectBlock env.toConnectEnv block true false start <;> rfl
    rw [ends]
    by_cases genesis : block.getHash = env.params.hashGenesisBlock
    · have view : OnlyView start
          (stateOf (connectBlock env.toConnectEnv block true false start)) :=
        onlyView_connectBlock_genesis genesis start
      exact ⟨fun _ _ other => absurd genesis other, fun _ => view.unwritten.node⟩
    rcases connectBlock_cases true false start genesis with
      ⟨failure, s', front, view, result⟩ | ⟨tally, s', front, view, result⟩
    · rw [result]
      refine ⟨fun _ _ _ tally s'' reached => ?_, fun _ => view.unwritten.node⟩
      rw [front] at reached
      cases reached
    rw [result, stateOf_fromSupply_justCheck]
    have same : s'.node = node := by rw [view]
    have entry : s'.suppliedEntry tally = start.suppliedEntry tally := by
      rw [view]
      rfl
    have dummy : s'.pindex.phashBlock = none := by
      rw [view]
      rfl
    have whole := unwritten_recorded_dummy env.toConnectEnv block tally dummy
    rw [same, entry] at whole
    rw [whole]
    constructor
    · intro already _ _ tally' s'' reached
      rw [front] at reached
      cases reached
      exact already
    · exact fun already => already rfl genesis tally s' front

/-- A call with `fJustCheck`, or one that returns false, leaves everything but the view as it was if
and only if it does not reach the supply record, or what would be written is there already. -/
theorem connectBlock_leaves_rest_iff (env : TemplateEnv) (block : CBlock)
    (fJustCheck fAlreadyChecked : Bool) (s : ConnectState) (filed : s.Filed)
    (pindexPrev : CBlockIndex) (fCheckMerkleRoot : Bool) :
    (LeavesRest fJustCheck s (connectBlock env.toConnectEnv block fJustCheck fAlreadyChecked s) ↔
      (block.getHash ≠ env.params.hashGenesisBlock → ∀ tally s',
        beforeSupply env.toConnectEnv block fJustCheck fAlreadyChecked s = .ok tally s' →
          WritesNothingNew env.toConnectEnv block fJustCheck tally s)) ∧
    (s.node.Unwritten
        (stateOf (env.testBlockValidity block pindexPrev s.view fCheckMerkleRoot s.node)) ↔
      (env.checkTemplate s.node block pindexPrev fCheckMerkleRoot = .ok () →
        block.getHash ≠ env.params.hashGenesisBlock → ∀ tally s',
          beforeSupply env.toConnectEnv block true false
              ⟨s.node, indexDummy block pindexPrev, s.view⟩ = .ok tally s' →
            env.writeBlockIndex = true → s.node.readBlockIndex block.getHash =
              some (ofIndex (ConnectState.suppliedEntry
                ⟨s.node, indexDummy block pindexPrev, s.view⟩ tally)).serialize)) :=
  ⟨leavesRest_connectBlock filed,
    unwritten_testBlockValidity env block pindexPrev s.view fCheckMerkleRoot s.node⟩

end Calls

/-! ## A template -/

def templateEnv : TemplateEnv := { straightEnv with fEnabled := false, mapCheckpoints := [] }

/-- The node behind the genesis block, asked about the template of a block at height 1. -/
def askedAbout (block : CBlock) : ConnectState where
  node := beforeFirst.node
  pindex := TemplateEnv.indexDummy block (straightIndex 0)
  view := ⟨FlatCoins.empty, 1⟩

def missingInputBlock : CBlock :=
  { coinBaseBlock 1 with
    vtx := (coinBaseBlock 1).vtx ++ [⟨900, 1, [{ prevout := ⟨800, 0⟩ }], [⟨0, [0x51]⟩], 0, []⟩] }

/-- It does not reach the record. -/
theorem missingInputBlock_leaves_rest :
    LeavesRest true (askedAbout missingInputBlock) (connectBlock templateEnv.toConnectEnv
        missingInputBlock true false (askedAbout missingInputBlock)) ∧
      (askedAbout missingInputBlock).node.Unwritten (stateOf (templateEnv.testBlockValidity
        missingInputBlock (straightIndex 0) (askedAbout missingInputBlock).view false
        (askedAbout missingInputBlock).node)) := by
  have stops : ∀ tally s', beforeSupply templateEnv.toConnectEnv missingInputBlock true false
      (askedAbout missingInputBlock) ≠ .ok tally s' := by
    intro tally s' reached
    have fails : (match beforeSupply templateEnv.toConnectEnv missingInputBlock true false
        (askedAbout missingInputBlock) with
      | .ok _ _ => true
      | .error _ _ => false) = false := by decide +kernel
    rw [reached] at fails
    cases fails
  have both := connectBlock_leaves_rest_iff templateEnv missingInputBlock true false
    (askedAbout missingInputBlock) (fun hash own => by cases own) (straightIndex 0) false
  exact ⟨both.1.mpr fun _ tally s' reached => absurd reached (stops tally s'),
    both.2.mpr fun _ _ tally s' reached => absurd reached (stops tally s')⟩

/-- The template of a block at height 1 is found valid, and from then on the block database has an
entry of it, which a start of the node reads. -/
theorem template_entry_stays : ∃ node',
    templateEnv.testBlockValidity (coinBaseBlock 1) (straightIndex 0) ⟨FlatCoins.empty, 1⟩ false
        (askedAbout (coinBaseBlock 1)).node = .ok () node' ∧
      ((node'.readBlockIndex (coinBaseBlock 1).getHash).bind unserialize).map
        (fun read => read.1.nHeight) = some 1 ∧
      ¬ (askedAbout (coinBaseBlock 1)).node.Unwritten node' := by
  have outcome : (match templateEnv.testBlockValidity (coinBaseBlock 1) (straightIndex 0)
      ⟨FlatCoins.empty, 1⟩ false (askedAbout (coinBaseBlock 1)).node with
    | .ok _ node' =>
      ((node'.readBlockIndex (coinBaseBlock 1).getHash).bind unserialize).map
        fun read => read.1.nHeight
    | .error _ _ => none) = some 1 := by decide +kernel
  cases result : templateEnv.testBlockValidity (coinBaseBlock 1) (straightIndex 0)
      ⟨FlatCoins.empty, 1⟩ false (askedAbout (coinBaseBlock 1)).node with
  | error failure node' => rw [result] at outcome; cases outcome
  | ok _ node' =>
    rw [result] at outcome
    refine ⟨node', rfl, outcome, fun unwritten => ?_⟩
    have before : (askedAbout (coinBaseBlock 1)).node.readBlockIndex (coinBaseBlock 1).getHash =
        none := by decide +kernel
    simp only [unwritten.blockTreeDB, before] at outcome
    cases outcome

end Esbcoin
