import Esbcoin.Lib.StateRel
import Esbcoin.Lib.StepRun
import Esbcoin.Validation.ConnectBlock

/-!
# Moving the tip

`ConnectTip` and `DisconnectTip` (`src/main.cpp:2469-2617`) on the node's tables and on the
view `pcoinsTip`. A block is applied to a view of its own, which is flushed into `pcoinsTip` on
success and dropped otherwise; what `ConnectBlock` or `DisconnectBlock` has done to the tables
by then stays in both cases. The memory pool and the wallets are left out.
-/

namespace Esbcoin

open StateRel

/-- The node's tables and its view. -/
structure ChainState where
  node : NodeState
  /-- `pcoinsTip`. -/
  view : CoinsView

/-- What moving the tip asks of the rest of the node. -/
structure TipEnv extends ConnectEnv where
  /-- What `ReadBlockFromDisk` finds at the position of the entry. -/
  blockFile : Option CBlock
  /-- `FlushStateToDisk` succeeds. -/
  flushStateToDisk : Bool

/-- `ReadBlockFromDisk` (`main.cpp:1611-1645`) of the entry filed under `hash`. -/
def readBlockFromDisk (env : TipEnv) (hash : UInt256) : Option CBlock :=
  env.blockFile.filter fun block =>
    (!block.isProofOfWork || env.checkProofOfWork block.getHash block.nBits) &&
      block.getHash == hash

/-- The block `ConnectTip` connects for the entry filed under `hash`. -/
def blockToConnect (env : TipEnv) (hash : UInt256) (pblock : Option CBlock) : Option CBlock :=
  pblock <|> readBlockFromDisk env hash

/-- `InvalidBlockFound` (`main.cpp:1898-1916`): a rejected block is marked, unless the block
itself may not be at fault. A failure without a verdict counts as one that is not. -/
def invalidBlockFound (failure : Failure) (hash : UInt256) (node : NodeState) : NodeState :=
  match failure with
  | .invalid rejection =>
    if rejection.corruptionPossible then node
    else { node with mapBlockIndex := node.mapBlockIndex.modify hash fun pindex =>
      { pindex with nStatus := { pindex.nStatus with failedValid := true } } }
  | _ => node

/-- `ConnectTip` (`main.cpp:2544-2617`) with the entry filed under `hash`. -/
def connectTip (env : TipEnv) (hash : UInt256) (pblock : Option CBlock)
    (fAlreadyChecked : Bool) : EStateM Failure ChainState Unit := fun c =>
  match c.node.mapBlockIndex.lookup hash with
  | none => .error .crash c
  | some pindexNew =>
    if pindexNew.pprev ≠ c.node.chainActive.tip then .error .crash c
    else
      match blockToConnect env hash pblock with
      | none => .error (.abort "Failed to read block") c
      | some block =>
        match connectBlock env.toConnectEnv block false (pblock.isSome && fAlreadyChecked)
            ⟨c.node, pindexNew, c.view⟩ with
        | .error failure s => .error failure { c with node := invalidBlockFound failure hash s.node }
        | .ok () s =>
          if !env.flushStateToDisk then
            .error (.abort "Failed to write to coin database") ⟨s.node, s.view⟩
          else
            .ok () ⟨{ s.node with
              chainActive := s.node.chainActive.setTip s.node.mapBlockIndex (some hash) }, s.view⟩

/-- `DisconnectTip` (`main.cpp:2469-2513`). -/
def disconnectTip (env : TipEnv) : EStateM Failure ChainState Unit := fun c =>
  match c.node.chainActive.tip with
  | none => .error .crash c
  | some hash =>
    match c.node.mapBlockIndex.lookup hash with
    | none => .error .crash c
    | some pindexDelete =>
      match readBlockFromDisk env hash with
      | none => .error (.abort "Failed to read block") c
      | some block =>
        match disconnectBlock env.toConnectEnv block ⟨c.node, pindexDelete, c.view⟩ with
        | .error failure s => .error failure { c with node := s.node }
        | .ok false s =>
          .error (.error "DisconnectTip() : DisconnectBlock failed") { c with node := s.node }
        | .ok true s =>
          if !env.flushStateToDisk then
            .error (.abort "Failed to write to coin database") ⟨s.node, s.view⟩
          else
            .ok () ⟨{ s.node with
              chainActive := s.node.chainActive.setTip s.node.mapBlockIndex pindexDelete.pprev },
              s.view⟩

/-- A move of the tip. `ActivateBestChain` hands a block over only for its own entry. -/
inductive TipAction where
  | connect (env : TipEnv) (hash : UInt256) (pblock : Option CBlock) (fAlreadyChecked : Bool)
  | disconnect (env : TipEnv)

/-- `pblock && pblock->GetHash() == pindexMostWork->GetBlockHash() ? pblock : NULL`. -/
def handedOver (hash : UInt256) (pblock : Option CBlock) : Option CBlock :=
  pblock.filter fun block => block.getHash == hash

/-- A step of the tip. -/
def tipStep (c : ChainState) : TipAction → ChainState
  | .connect env hash pblock fAlreadyChecked =>
    stateOf (connectTip env hash (handedOver hash pblock) fAlreadyChecked c)
  | .disconnect env => stateOf (disconnectTip env c)

theorem getHash_of_blockToConnect {env : TipEnv} {hash : UInt256} {pblock : Option CBlock}
    {block : CBlock} (h : blockToConnect env hash (handedOver hash pblock) = some block) :
    block.getHash = hash := by
  cases handed : handedOver hash pblock with
  | some block' =>
    rw [handed] at h
    obtain rfl : block' = block := Option.some.inj h
    simpa using (Option.filter_eq_some_iff.mp handed).2
  | none =>
    rw [handed] at h
    have read : readBlockFromDisk env hash = some block := h
    have passes := (Option.filter_eq_some_iff.mp read).2
    simp only [Bool.and_eq_true, beq_iff_eq] at passes
    exact passes.2

/-! ## What connecting and disconnecting keep -/

namespace ConnectState

/-- The entry of the call is the one its hash is filed under. -/
def Filed (s : ConnectState) : Prop :=
  ∀ hash, s.pindex.phashBlock = some hash → s.node.mapBlockIndex.lookup hash = some s.pindex

/-- The chain and the other entries are left alone, and the call's entry stays in its place. -/
structure Frame (s s' : ConnectState) : Prop where
  chainActive : s'.node.chainActive = s.node.chainActive
  place : s'.pindex.place = s.pindex.place
  others : ∀ hash, s.pindex.phashBlock ≠ some hash →
    s'.node.mapBlockIndex.lookup hash = s.node.mapBlockIndex.lookup hash
  filed : s.Filed → s'.Filed

theorem Frame.refl (s : ConnectState) : Frame s s := ⟨rfl, rfl, fun _ _ => rfl, id⟩

variable {a b s : ConnectState} {pindex : CBlockIndex}

theorem Frame.trans {c : ConnectState} (h : Frame a b) (h' : Frame b c) : Frame a c where
  chainActive := h'.chainActive.trans h.chainActive
  place := h'.place.trans h.place
  others hash other := by
    have same : b.pindex.phashBlock = a.pindex.phashBlock := congrArg Prod.fst h.place
    rw [h'.others hash (by rwa [same]), h.others hash other]
  filed := h'.filed ∘ h.filed

/-- Changes outside the block index and the chain. -/
theorem Frame.of_same {s' : ConnectState} (chain : s'.node.chainActive = s.node.chainActive)
    (map : s'.node.mapBlockIndex = s.node.mapBlockIndex) (pindex : s'.pindex = s.pindex) :
    Frame s s' where
  chainActive := chain
  place := by rw [pindex]
  others hash _ := by rw [map]
  filed filed := by
    unfold Filed at *
    rw [map, pindex]
    exact filed

/-- A change of the entry that leaves it in its place. -/
theorem Frame.setIndex (place : pindex.place = s.pindex.place) : Frame s (s.setIndex pindex) := by
  have same : pindex.phashBlock = s.pindex.phashBlock := congrArg Prod.fst place
  constructor
  · unfold ConnectState.setIndex
    split <;> rfl
  · exact place
  · intro hash other
    unfold ConnectState.setIndex
    split
    · rename_i own hashed
      rw [same] at hashed
      exact AList.lookup_insert_ne fun equal => other (by rw [hashed, equal])
    · rfl
  · intro _ hash hashed
    unfold ConnectState.setIndex
    rw [show pindex.phashBlock = some hash from hashed]
    exact AList.lookup_insert _

/-- A change of the entry, and one outside the block index and the chain. -/
theorem Frame.of_setIndex {s' : ConnectState} (same : s'.pindex = pindex)
    (place : pindex.place = s.pindex.place)
    (chain : s'.node.chainActive = (s.setIndex pindex).node.chainActive)
    (map : s'.node.mapBlockIndex = (s.setIndex pindex).node.mapBlockIndex) : Frame s s' :=
  Frame.trans (Frame.setIndex place) (Frame.of_same chain map same)

/-- A change outside the block index and the chain, and one of the entry. -/
theorem Frame.setIndex_of_same {s' : ConnectState} (place : pindex.place = s'.pindex.place)
    (same : s'.pindex = s.pindex) (chain : s'.node.chainActive = s.node.chainActive)
    (map : s'.node.mapBlockIndex = s.node.mapBlockIndex) : Frame s (s'.setIndex pindex) :=
  Frame.trans (Frame.of_same chain map same) (Frame.setIndex place)

theorem Frame.sameTree {s' : ConnectState} (h : Frame s s') (filed : s.Filed) :
    s.node.mapBlockIndex.SameTree s'.node.mapBlockIndex := by
  intro hash
  by_cases own : s.pindex.phashBlock = some hash
  · have own' : s'.pindex.phashBlock = some hash := (congrArg Prod.fst h.place).trans own
    rw [filed hash own, h.filed filed hash own', Option.map_some, Option.map_some, h.place]
  · rw [h.others hash own]

/-- `Frame`, with `mapStakeSpent` left alone too. -/
structure Quiet (s s' : ConnectState) : Prop extends Frame s s' where
  mapStakeSpent : s'.node.mapStakeSpent = s.node.mapStakeSpent

theorem Quiet.refl (s : ConnectState) : Quiet s s := ⟨Frame.refl s, rfl⟩

theorem Quiet.trans {c : ConnectState} (h : Quiet a b) (h' : Quiet b c) : Quiet a c :=
  ⟨h.toFrame.trans h'.toFrame, h'.mapStakeSpent.trans h.mapStakeSpent⟩

theorem setIndex_mapStakeSpent (s : ConnectState) (pindex : CBlockIndex) :
    (s.setIndex pindex).node.mapStakeSpent = s.node.mapStakeSpent := by
  unfold ConnectState.setIndex
  split <;> rfl

/-- The block index, the chain, the undo files and the call's entry are left alone. -/
structure SameIndex (s s' : ConnectState) : Prop where
  mapBlockIndex : s'.node.mapBlockIndex = s.node.mapBlockIndex
  chainActive : s'.node.chainActive = s.node.chainActive
  pindex : s'.pindex = s.pindex
  undoFiles : s'.node.undoFiles = s.node.undoFiles

theorem SameIndex.refl (s : ConnectState) : SameIndex s s := ⟨rfl, rfl, rfl, rfl⟩

theorem SameIndex.trans {c : ConnectState} (h : SameIndex a b) (h' : SameIndex b c) :
    SameIndex a c :=
  ⟨h'.mapBlockIndex.trans h.mapBlockIndex, h'.chainActive.trans h.chainActive,
    h'.pindex.trans h.pindex, h'.undoFiles.trans h.undoFiles⟩

end ConnectState

section Keeps

open ConnectState

variable {α : Type}

theorem keeps_bind {β : Type} {x : Validation α} {k : α → Validation β} (first : Keeps Quiet x)
    (rest : ∀ a, Keeps Quiet (k a)) : Keeps Quiet (x >>= k) :=
  Keeps.bind (R := Quiet) (fun _ _ _ => Quiet.trans) first rest

theorem keeps_checking (check : ConnectState → Except Failure α) : Keeps Quiet (checking check) :=
  Keeps.of_same Quiet.refl fun s => by
    unfold checking
    split <;> rfl

section

variable (env : ConnectEnv)
include env

theorem keeps_connectTransaction (fScriptChecks : Bool) (i : Nat) (tx : CTransaction)
    (tally : BlockTally) :
    Keeps Quiet (connectTransaction env fScriptChecks i tx tally) := by
  intro s
  unfold connectTransaction
  simp only
  split
  · exact ⟨Frame.of_same rfl rfl rfl, rfl⟩
  · exact Quiet.refl s

theorem keeps_connectTransactions (fScriptChecks : Bool) (i : Nat) (vtx : List CTransaction)
    (tally : BlockTally) :
    Keeps Quiet (connectTransactions env fScriptChecks i vtx tally) := by
  induction vtx generalizing i tally with
  | nil => exact Keeps.pure Quiet.refl tally
  | cons tx vtx ih =>
    exact keeps_bind (keeps_connectTransaction env fScriptChecks i tx tally)
      fun tally => ih (i + 1) tally

theorem keeps_recordSupply (block : CBlock) (tally : BlockTally) :
    Keeps Quiet (recordSupply env block tally) := by
  intro s
  unfold recordSupply
  split
  · exact ⟨Frame.of_setIndex rfl rfl rfl rfl, setIndex_mapStakeSpent s _⟩
  · exact ⟨Frame.setIndex rfl, setIndex_mapStakeSpent s _⟩

theorem keeps_writeUndo (vtxundo : List CTxUndo) :
    Keeps Quiet (writeUndo env vtxundo) := by
  intro s
  unfold writeUndo
  split
  · exact Quiet.refl s
  split
  · exact ⟨Frame.setIndex rfl, setIndex_mapStakeSpent s _⟩
  split
  · exact Quiet.refl s
  split
  · exact Quiet.refl s
  · exact Quiet.refl s
  · exact ⟨Frame.setIndex_of_same rfl rfl rfl rfl, setIndex_mapStakeSpent _ _⟩

theorem keeps_writeTxIndex (vPos : List (UInt256 × CDiskTxPos)) :
    Keeps Quiet (writeTxIndex env vPos) := by
  intro s
  unfold writeTxIndex
  split
  · exact Quiet.refl s
  · split
    · exact Quiet.refl s
    · exact ⟨Frame.of_same rfl rfl rfl, rfl⟩

end

theorem keeps_setBestBlock : Keeps Quiet setBestBlock := by
  intro s
  unfold setBestBlock
  split
  · exact Quiet.refl s
  · exact ⟨Frame.of_same rfl rfl rfl, rfl⟩

/-- The call adds the block's spends to `mapStakeSpent` if it succeeds, and changes the map in
no other way; it keeps the rest of the frame in either case. -/
def AddsSpends (params : CChainParams) (block : CBlock) (x : Validation Unit) : Prop :=
  ∀ s, s.pindex.phashBlock.isSome = true → Frame s (stateOf (x s)) ∧ match x s with
    | .ok _ s' => s'.node.mapStakeSpent =
        addStakeSpent params block s.pindex.nHeight s.node.mapStakeSpent
    | .error _ s' => s'.node.mapStakeSpent = s.node.mapStakeSpent

theorem AddsSpends.bind {params : CChainParams} {block : CBlock} {x : Validation α}
    {k : α → Validation Unit} (first : Keeps Quiet x)
    (rest : ∀ a, AddsSpends params block (k a)) : AddsSpends params block (x >>= k) := by
  intro s hashed
  have quiet := first s
  show Frame s (stateOf (EStateM.bind x k s)) ∧ match EStateM.bind x k s with
    | .ok _ s' => _
    | .error _ s' => _
  unfold EStateM.bind
  cases result : x s with
  | error failure s' =>
    rw [result] at quiet
    exact ⟨quiet.toFrame, quiet.mapStakeSpent⟩
  | ok a s' =>
    rw [result] at quiet
    have place : s'.pindex.place = s.pindex.place := quiet.place
    simp only [CBlockIndex.place, Prod.mk.injEq] at place
    obtain ⟨frame, effect⟩ := rest a s' (by rw [place.1]; exact hashed)
    refine ⟨Frame.trans quiet.toFrame frame, ?_⟩
    have same : s'.node.mapStakeSpent = s.node.mapStakeSpent := quiet.mapStakeSpent
    rw [place.2.2, same] at effect
    exact effect

section

variable (env : ConnectEnv)
include env

theorem addsSpends_writeBlock (block : CBlock) (tally : BlockTally) :
    AddsSpends env.params block (writeBlock env block tally) := by
  refine AddsSpends.bind (keeps_writeUndo env _) fun _ => ?_
  refine AddsSpends.bind (keeps_writeTxIndex env _) fun _ => ?_
  intro s hashed
  obtain ⟨hash, own⟩ := Option.isSome_iff_exists.mp hashed
  simp only [changing, bind, EStateM.bind, setBestBlock, own]
  exact ⟨Frame.of_same rfl rfl rfl, trivial⟩

theorem addsSpends_connectBlock (block : CBlock) (fAlreadyChecked : Bool)
    (notGenesis : block.getHash ≠ env.params.hashGenesisBlock) :
    AddsSpends env.params block (connectBlock env block false fAlreadyChecked) := by
  refine AddsSpends.bind (keeps_checking _) fun _ => ?_
  refine AddsSpends.bind (keeps_checking _) fun _ => ?_
  rw [if_neg notGenesis]
  refine AddsSpends.bind (keeps_checking _) fun _ => ?_
  refine AddsSpends.bind (keeps_checking _) fun _ => ?_
  refine AddsSpends.bind (keeps_checking _) fun _ => ?_
  refine AddsSpends.bind (Keeps.get Quiet.refl) fun _ => ?_
  refine AddsSpends.bind (keeps_connectTransactions env _ 0 _ _) fun _ => ?_
  refine AddsSpends.bind (keeps_recordSupply env block _) fun _ => ?_
  refine AddsSpends.bind (keeps_checking _) fun _ => ?_
  refine AddsSpends.bind (keeps_checking _) fun _ => ?_
  exact addsSpends_writeBlock env block _

theorem keeps_connectBlock_genesis (block : CBlock) (fJustCheck fAlreadyChecked : Bool)
    (genesis : block.getHash = env.params.hashGenesisBlock) :
    Keeps Quiet (connectBlock env block fJustCheck fAlreadyChecked) := by
  refine keeps_bind (keeps_checking _) fun _ => ?_
  refine keeps_bind (keeps_checking _) fun _ => ?_
  rw [if_pos genesis]
  exact keeps_setBestBlock

/-- `ConnectBlock` leaves the chain and the other entries alone. -/
theorem frame_connectBlock (block : CBlock) (fAlreadyChecked : Bool) {s : ConnectState}
    (hashed : s.pindex.phashBlock.isSome = true) :
    Frame s (stateOf (connectBlock env block false fAlreadyChecked s)) := by
  by_cases genesis : block.getHash = env.params.hashGenesisBlock
  · exact (keeps_connectBlock_genesis env block false fAlreadyChecked genesis s).toFrame
  · exact (addsSpends_connectBlock env block fAlreadyChecked genesis s hashed).1

/-- `DisconnectBlock` leaves the chain and the block index alone. -/
theorem keeps_disconnectBlock (block : CBlock) :
    Keeps SameIndex (disconnectBlock env block) := by
  have refl : ∀ s, SameIndex s s := SameIndex.refl
  have trans : ∀ a b c, SameIndex a b → SameIndex b c → SameIndex a c :=
    fun _ _ _ => SameIndex.trans
  have checks {α : Type} (check : ConnectState → Except Failure α) :
      Keeps SameIndex (checking check) := Keeps.of_same refl fun s => by
    unfold checking
    split <;> rfl
  refine Keeps.bind trans (checks _) fun _ => Keeps.bind trans (checks _) fun _ => ?_
  refine Keeps.bind trans ?_ fun _ => Keeps.bind trans ?_ fun _ => Keeps.pure refl _
  · intro s
    unfold undoTransactions
    split <;> exact ⟨rfl, rfl, rfl, rfl⟩
  · exact fun _ => ⟨rfl, rfl, rfl, rfl⟩

end

end Keeps

/-! ## What a move does -/

namespace ChainState

/-- What the chain of a node keeps. -/
structure Sound (c : ChainState) : Prop where
  wellFormed : c.node.mapBlockIndex.WellFormed
  linked : c.node.chainActive.Linked c.node.mapBlockIndex

theorem Sound.of_sameTree {c c' : ChainState} (sound : c.Sound)
    (tree : c.node.mapBlockIndex.SameTree c'.node.mapBlockIndex)
    (linked : c'.node.chainActive.Linked c.node.mapBlockIndex) : c'.Sound :=
  ⟨sound.wellFormed.of_sameTree tree, linked.of_sameTree tree⟩

end ChainState

theorem sameTree_invalidBlockFound (failure : Failure) (hash : UInt256) (node : NodeState) :
    node.mapBlockIndex.SameTree (invalidBlockFound failure hash node).mapBlockIndex := by
  intro key
  unfold invalidBlockFound
  split
  · split
    · rfl
    rw [AssocMap.lookup_modify]
    split
    · rename_i equal
      subst equal
      rw [Option.map_map]
      rfl
    · rfl
  · rfl

theorem invalidBlockFound_others (failure : Failure) {hash key : UInt256} (node : NodeState)
    (other : key ≠ hash) :
    (invalidBlockFound failure hash node).mapBlockIndex.lookup key =
      node.mapBlockIndex.lookup key := by
  unfold invalidBlockFound
  split
  · split
    · rfl
    · rw [AssocMap.lookup_modify, if_neg other]
  · rfl

theorem invalidBlockFound_chainActive (failure : Failure) (hash : UInt256) (node : NodeState) :
    (invalidBlockFound failure hash node).chainActive = node.chainActive := by
  unfold invalidBlockFound
  split
  · split <;> rfl
  · rfl

section Moves

variable {env : TipEnv} {hash : UInt256} {pblock : Option CBlock} {fAlreadyChecked : Bool}
variable {c c' : ChainState}

section

variable (sound : c.Sound)
include sound

theorem filed_of_lookup {pindex : CBlockIndex}
    (found : c.node.mapBlockIndex.lookup hash = some pindex) :
    pindex.phashBlock = some hash ∧ ConnectState.Filed ⟨c.node, pindex, c.view⟩ := by
  have own := sound.wellFormed.filed found
  refine ⟨own, fun hash' same => ?_⟩
  obtain rfl := Option.some.inj (own.symm.trans same)
  exact found

/-- What `ConnectTip` has done when it succeeds. -/
theorem connectTip_ok (h : connectTip env hash pblock fAlreadyChecked c = .ok () c') :
    ∃ pindex block s, c.node.mapBlockIndex.lookup hash = some pindex ∧
      pindex.pprev = c.node.chainActive.tip ∧ blockToConnect env hash pblock = some block ∧
      connectBlock env.toConnectEnv block false (pblock.isSome && fAlreadyChecked)
        ⟨c.node, pindex, c.view⟩ = .ok () s ∧
      c' = ⟨{ s.node with chainActive := ⟨c.node.chainActive.vChain ++ [hash]⟩ }, s.view⟩ := by
  unfold connectTip at h
  split at h
  · cases h
  rename_i pindex found
  split at h
  · cases h
  rename_i prev
  have prev : pindex.pprev = c.node.chainActive.tip := not_ne_iff.mp prev
  split at h
  · cases h
  rename_i block read
  split at h
  · cases h
  rename_i s connects
  split at h
  · cases h
  obtain ⟨-, rfl⟩ := EStateM.Result.ok.inj h
  obtain ⟨own, filed⟩ := filed_of_lookup sound found
  have frame := frame_connectBlock env.toConnectEnv block
    (pblock.isSome && fAlreadyChecked) (s := ⟨c.node, pindex, c.view⟩) (by simp [own])
  rw [connects, stateOf_ok] at frame
  refine ⟨pindex, block, s, found, prev, read, connects, ?_⟩
  have tree := frame.sameTree filed
  obtain ⟨pindex', found', place⟩ := tree.lookup found
  simp only [CBlockIndex.place, Prod.mk.injEq] at place
  rw [frame.chainActive,
    (sound.linked.of_sameTree tree).setTip_next (sound.wellFormed.of_sameTree tree) found'
      (place.2.1.trans prev)]

/-- Whatever comes of it, `ConnectTip` keeps the tree and the entries of other blocks. -/
theorem connectTip_index (h : stateOf (connectTip env hash pblock fAlreadyChecked c) = c') :
    c.node.mapBlockIndex.SameTree c'.node.mapBlockIndex ∧
      ∀ key ≠ hash, c'.node.mapBlockIndex.lookup key = c.node.mapBlockIndex.lookup key := by
  have same : c.node.mapBlockIndex.SameTree c.node.mapBlockIndex ∧
      ∀ key ≠ hash, c.node.mapBlockIndex.lookup key = c.node.mapBlockIndex.lookup key :=
    ⟨BlockMap.SameTree.refl _, fun _ _ => rfl⟩
  subst h
  unfold connectTip
  split
  · exact same
  rename_i pindex found
  split
  · exact same
  split
  · exact same
  rename_i block read
  obtain ⟨own, filed⟩ := filed_of_lookup sound found
  have frame := frame_connectBlock env.toConnectEnv block
    (pblock.isSome && fAlreadyChecked) (s := ⟨c.node, pindex, c.view⟩) (by simp [own])
  have others : ∀ key ≠ hash, (stateOf (connectBlock env.toConnectEnv block false
      (pblock.isSome && fAlreadyChecked) ⟨c.node, pindex, c.view⟩)).node.mapBlockIndex.lookup
        key = c.node.mapBlockIndex.lookup key := fun key other =>
    frame.others key fun equal => other (Option.some.inj (own.symm.trans equal)).symm
  have tree := frame.sameTree filed
  split
  · rename_i failure s fails
    rw [fails] at tree others
    refine ⟨tree.trans (sameTree_invalidBlockFound failure hash s.node), fun key other => ?_⟩
    exact (invalidBlockFound_others failure s.node other).trans (others key other)
  rename_i s connects
  rw [connects] at tree others
  split
  · exact ⟨tree, others⟩
  · exact ⟨tree, others⟩

/-- The child of the tip is not on the chain, so the entries of the chain stay as they are. -/
theorem connectTip_onChain {key : UInt256} (onChain : key ∈ c.node.chainActive.vChain) :
    (stateOf (connectTip env hash pblock fAlreadyChecked c)).node.mapBlockIndex.lookup key =
      c.node.mapBlockIndex.lookup key := by
  by_cases own : key = hash
  · subst own
    unfold connectTip
    split
    · rfl
    rename_i pindex found
    split
    · rfl
    rename_i prev
    obtain ⟨i, here⟩ := List.mem_iff_getElem?.mp onChain
    have next := sound.linked.nHeight_of_pprev sound.wellFormed found (not_ne_iff.mp prev)
    have height := sound.linked.nHeight_eq here found
    have below := (List.getElem?_eq_some_iff.mp here).1
    omega
  · exact (connectTip_index sound rfl).2 key own

/-- A `ConnectTip` that fails leaves the chain as it is. -/
theorem connectTip_error {failure : Failure}
    (h : connectTip env hash pblock fAlreadyChecked c = .error failure c') :
    c'.node.chainActive = c.node.chainActive := by
  unfold connectTip at h
  split at h
  · obtain ⟨-, rfl⟩ := EStateM.Result.error.inj h
    rfl
  rename_i pindex found
  split at h
  · obtain ⟨-, rfl⟩ := EStateM.Result.error.inj h
    rfl
  split at h
  · obtain ⟨-, rfl⟩ := EStateM.Result.error.inj h
    rfl
  rename_i block read
  obtain ⟨own, -⟩ := filed_of_lookup sound found
  have frame := frame_connectBlock env.toConnectEnv block
    (pblock.isSome && fAlreadyChecked) (s := ⟨c.node, pindex, c.view⟩) (by simp [own])
  split at h
  · rename_i failure' s fails
    obtain ⟨-, rfl⟩ := EStateM.Result.error.inj h
    rw [fails] at frame
    exact (invalidBlockFound_chainActive _ _ _).trans frame.chainActive
  rename_i s connects
  rw [connects] at frame
  split at h
  · obtain ⟨-, rfl⟩ := EStateM.Result.error.inj h
    exact frame.chainActive
  · cases h

/-- What `DisconnectTip` has done when it succeeds. -/
theorem disconnectTip_ok (h : disconnectTip env c = .ok () c') :
    ∃ hash pindex block s, c.node.chainActive.tip = some hash ∧
      c.node.mapBlockIndex.lookup hash = some pindex ∧ readBlockFromDisk env hash = some block ∧
      disconnectBlock env.toConnectEnv block ⟨c.node, pindex, c.view⟩ = .ok true s ∧
      s.node.mapBlockIndex = c.node.mapBlockIndex ∧
      c' = ⟨{ s.node with chainActive := ⟨c.node.chainActive.vChain.dropLast⟩ }, s.view⟩ := by
  unfold disconnectTip at h
  split at h
  · cases h
  rename_i hash tip
  split at h
  · cases h
  rename_i pindex found
  split at h
  · cases h
  rename_i block read
  split at h
  · cases h
  · cases h
  rename_i s disconnects
  split at h
  · cases h
  obtain ⟨-, rfl⟩ := EStateM.Result.ok.inj h
  have same := (keeps_disconnectBlock _ _).of_ok disconnects
  refine ⟨hash, pindex, block, s, tip, found, read, disconnects, same.mapBlockIndex, ?_⟩
  rw [same.mapBlockIndex, same.chainActive, sound.linked.setTip_prev tip found]

end

/-- Whatever comes of it, `DisconnectTip` keeps the block index. -/
theorem disconnectTip_index (h : stateOf (disconnectTip env c) = c') :
    c'.node.mapBlockIndex = c.node.mapBlockIndex := by
  subst h
  unfold disconnectTip
  split
  · rfl
  split
  · rfl
  rename_i hash _ pindex found
  split
  · rfl
  rename_i block read
  have same := (keeps_disconnectBlock env.toConnectEnv block ⟨c.node, pindex, c.view⟩).mapBlockIndex
  split
  · rename_i fails
    rw [fails] at same
    exact same
  · rename_i fails
    rw [fails] at same
    exact same
  · rename_i disconnects
    rw [disconnects] at same
    split <;> exact same

/-- A `DisconnectTip` that fails leaves the chain as it is. -/
theorem disconnectTip_error {failure : Failure} (h : disconnectTip env c = .error failure c') :
    c'.node.chainActive = c.node.chainActive := by
  unfold disconnectTip at h
  split at h
  · obtain ⟨-, rfl⟩ := EStateM.Result.error.inj h
    rfl
  split at h
  · obtain ⟨-, rfl⟩ := EStateM.Result.error.inj h
    rfl
  rename_i hash _ pindex found
  split at h
  · obtain ⟨-, rfl⟩ := EStateM.Result.error.inj h
    rfl
  rename_i block read
  have same := (keeps_disconnectBlock env.toConnectEnv block ⟨c.node, pindex, c.view⟩).chainActive
  split at h
  · rename_i fails
    obtain ⟨-, rfl⟩ := EStateM.Result.error.inj h
    rw [fails] at same
    exact same
  · rename_i fails
    obtain ⟨-, rfl⟩ := EStateM.Result.error.inj h
    rw [fails] at same
    exact same
  · rename_i disconnects
    rw [disconnects] at same
    split at h
    · obtain ⟨-, rfl⟩ := EStateM.Result.error.inj h
      exact same
    · cases h

end Moves

/-- The tip is at the same place, one child further or one block back. -/
theorem ChainState.Sound.step {c : ChainState} (sound : c.Sound) (a : TipAction) :
    (tipStep c a).Sound := by
  cases a with
  | connect env hash pblock fAlreadyChecked =>
    refine sound.of_sameTree (connectTip_index sound rfl).1 ?_
    show CChain.Linked _ (stateOf (connectTip _ _ _ _ _)).node.chainActive
    cases result : connectTip env hash (handedOver hash pblock) fAlreadyChecked c with
    | error failure c' =>
      rw [stateOf_error, connectTip_error sound result]
      exact sound.linked
    | ok _ c' =>
      obtain ⟨pindex, _, _, found, prev, -, -, rfl⟩ := connectTip_ok sound result
      exact sound.linked.append sound.wellFormed found prev
  | disconnect env =>
    have same : (tipStep c (.disconnect env)).node.mapBlockIndex = c.node.mapBlockIndex :=
      disconnectTip_index rfl
    refine sound.of_sameTree (by rw [same]; exact BlockMap.SameTree.refl _) ?_
    show CChain.Linked _ (stateOf (disconnectTip _ _)).node.chainActive
    cases result : disconnectTip env c with
    | error failure c' =>
      rw [stateOf_error, disconnectTip_error result]
      exact sound.linked
    | ok _ c' =>
      obtain ⟨_, _, _, _, -, -, -, -, -, rfl⟩ := disconnectTip_ok sound result
      rw [List.dropLast_eq_take]
      exact sound.linked.take _

end Esbcoin
