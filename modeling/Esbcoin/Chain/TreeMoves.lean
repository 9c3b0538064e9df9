import Esbcoin.Chain.TreeSound

namespace Esbcoin

open BlockStatus CBlockIndex AssocMap BlockMap

variable {c : StakeContext} {hasher : BlockHasher} {tree tree' : BlockTree} {map : BlockMap}

/-! ## A new entry -/

/-- Parents are found as before beside a new entry. -/
theorem deref_insert_fresh (wellFormed : map.WellFormed) {hash hashNew : UInt256}
    {e : CBlockIndex} (fresh : map.lookup hashNew = none) (found : map.lookup hash = some e)
    (new : CBlockIndex) : BlockMap.deref (map.insert hashNew new) e.pprev = map.deref e.pprev := by
  rw [deref_insert]
  refine if_neg fun parent => ?_
  obtain ⟨p, foundPrev, -⟩ := wellFormed.parent found parent
  rw [fresh] at foundPrev
  cases foundPrev

theorem CBlockIndex.Filled.of_new {e : CBlockIndex}
    (status : e.nStatus = raiseValidity {} BLOCK_VALID_TREE) : e.Filled := by
  refine ⟨?_, ?_, ?_⟩
  · rw [status]
    decide
  · rw [status]
    decide
  · intro data
    rw [status] at data
    exact absurd data (by decide)

/-- An entry without data is new. -/
theorem TreeSound.insertNew (sound : TreeSound hasher tree) {hashNew : UInt256}
    {new : CBlockIndex} (fresh : tree.mapBlockIndex.lookup hashNew = none)
    (index : tree'.mapBlockIndex = tree.mapBlockIndex.insert hashNew new)
    (unlinked : tree'.mapBlocksUnlinked = tree.mapBlocksUnlinked)
    (candidates : tree'.setBlockIndexCandidates = tree.setBlockIndexCandidates)
    (tip : tree'.tip = tree.tip) (grounded : Grounded (tree.mapBlockIndex.insert hashNew new))
    (header : hasher.hash (CDiskBlockIndex.ofIndex new).header = hashNew)
    (storable : new.Storable) (work : new.nChainWork = tree.mapBlockIndex.chainWork new)
    (parentKnown : new.pprev ≠ some hashNew) (filled : new.Filled)
    (noData : new.nStatus.haveData = false) (uncounted : new.nChainTx = 0) :
    TreeSound hasher tree' := by
  have wellFormed := sound.entries.grounded.wellFormed
  have kept : ∀ {hash e}, tree.mapBlockIndex.lookup hash = some e →
      AList.lookup hash (tree.mapBlockIndex.insert hashNew new) = some e := fun found =>
    lookup_insert_fresh fresh found
  have cases_of : ∀ {hash e}, AList.lookup hash (tree.mapBlockIndex.insert hashNew new) = some e →
      hash = hashNew ∧ e = new ∨ tree.mapBlockIndex.lookup hash = some e := fun found =>
    of_lookup_insert found
  refine ⟨?_, ?_, ?_, ?_⟩
  · rw [index]
    refine ⟨grounded, ?_, ?_, ?_, ?_⟩
    · intro hash e found
      rcases cases_of found with ⟨rfl, rfl⟩ | old
      · exact header
      · exact sound.entries.header old
    · intro hash e found
      rcases cases_of found with ⟨-, rfl⟩ | old
      · exact storable
      · exact sound.entries.storable old
    · intro hash e found
      unfold chainWork
      rcases cases_of found with ⟨-, rfl⟩ | old
      · rw [deref_insert, if_neg parentKnown]
        exact work
      · rw [deref_insert_fresh wellFormed fresh old]
        exact sound.entries.work old
    · intro hash e found
      rcases cases_of found with ⟨-, rfl⟩ | old
      · exact filled
      · exact sound.entries.filled old
  · rw [index, unlinked]
    refine ⟨⟨sound.queued.unlinked.nodup, ?_⟩, List.nodup_nil, ?_, ?_⟩
    · intro hashPrev hash
      rw [sound.queued.unlinked.mem_iff]
      constructor
      · rintro ⟨e, pprev, found, parent, data, foundPrev, zero⟩
        exact ⟨e, pprev, kept found, parent, data, kept foundPrev, zero⟩
      rintro ⟨e, pprev, found, parent, data, foundPrev, zero⟩
      rcases cases_of found with ⟨-, rfl⟩ | old
      · rw [noData] at data
        cases data
      · obtain ⟨p, foundOld, -⟩ := wellFormed.parent old parent
        obtain rfl := Option.some.inj ((kept foundOld).symm.trans foundPrev)
        exact ⟨e, p, old, parent, data, foundOld, zero⟩
    · intro hash e found _
      unfold chainTx
      rcases cases_of found with ⟨-, rfl⟩ | old
      · rw [noData]
        exact uncounted
      · rw [deref_insert_fresh wellFormed fresh old]
        exact sound.queued.counted old (List.not_mem_nil)
    · intro hash member
      cases member
  · intro hash member
    rw [candidates] at member
    obtain ⟨e, found, counted⟩ := sound.candidate hash member
    rw [index]
    exact ⟨e, kept found, counted⟩
  · intro hash member
    rw [tip] at member
    rw [index, contains_insert, sound.tip hash member, Bool.or_true]

theorem newEntry_storable (node : IndexNode) {block : CBlock} {p : CBlockIndex}
    (height : 0 ≤ p.nHeight) (version : InTwosComplement 4 block.nVersion) :
    (node.newEntry c block p).Storable := by
  have zero : InTwosComplement 8 (0 : Int) := ⟨by decide, by decide⟩
  refine ⟨?_, le_refl 0, ?_, zero, zero, version, fun _ _ => rfl, fun _ => rfl, fun _ => rfl, ?_⟩
  · show (0 : Int) ≤ p.nHeight + 1
    omega
  · show (raiseValidity {} BLOCK_VALID_TREE).valid < 8
    decide
  · intro stake
    have notStake : block.isProofOfStake = false := stake
    exact ⟨if_neg (by rw [notStake]; decide), if_neg (by rw [notStake]; decide)⟩

theorem TreeSound.addToBlockIndex (sound : TreeSound hasher tree) {block : CBlock}
    (hashed : block.getHash = hasher.hash block.toCBlockHeader)
    (version : InTwosComplement 4 block.nVersion)
    (parent : tree.mapBlockIndex.contains block.hashPrevBlock = true) :
    TreeSound hasher (tree.addToBlockIndex c block) := by
  obtain ⟨p, foundPrev⟩ := Option.isSome_iff_exists.mp parent
  cases fresh : tree.mapBlockIndex.lookup block.getHash with
  | some e =>
    have same : (tree.toIndexNode.addToBlockIndex c block) = tree.toIndexNode := by
      unfold IndexNode.addToBlockIndex
      rw [fresh]
    unfold BlockTree.addToBlockIndex
    rw [same]
    exact ⟨sound.entries, sound.queued, sound.candidate, sound.tip⟩
  | none =>
    have index : (tree.toIndexNode.addToBlockIndex c block).mapBlockIndex =
        tree.mapBlockIndex.insert block.getHash (tree.newEntry c block p) := by
      unfold IndexNode.addToBlockIndex
      rw [fresh, foundPrev]
    have low := sound.entries.grounded.height foundPrev
    have other : block.hashPrevBlock ≠ block.getHash := by
      intro equal
      rw [equal, fresh] at foundPrev
      cases foundPrev
    refine sound.insertNew fresh index rfl rfl rfl
      (grounded_insert sound.entries.grounded fresh rfl rfl foundPrev rfl) hashed.symm
      (newEntry_storable _ low version) ?_ (fun equal => other (Option.some.inj equal))
      (CBlockIndex.Filled.of_new rfl) rfl rfl
    show p.nChainWork + getBlockProof block.nBits =
      ((tree.mapBlockIndex.lookup block.hashPrevBlock).map CBlockIndex.nChainWork).getD 0 +
        getBlockProof block.nBits
    rw [foundPrev]
    rfl

/-! ## What is written afterwards -/

theorem mem_unlinked_congr {map' : BlockMap} {unlinked : List (UInt256 × UInt256)}
    (sound : UnlinkedSound map unlinked)
    (same : ∀ hashPrev hash,
      (∃ e pprev, map'.lookup hash = some e ∧ e.pprev = some hashPrev ∧
        e.nStatus.haveData = true ∧ map'.lookup hashPrev = some pprev ∧ pprev.nChainTx = 0) ↔
      ∃ e pprev, map.lookup hash = some e ∧ e.pprev = some hashPrev ∧ e.nStatus.haveData = true ∧
        map.lookup hashPrev = some pprev ∧ pprev.nChainTx = 0) :
    UnlinkedSound map' unlinked :=
  ⟨sound.nodup, fun hashPrev hash => (sound.mem_iff hashPrev hash).trans (same hashPrev hash).symm⟩

/-- An entry that keeps its identity, its data and its count is changed. -/
theorem TreeSound.update (sound : TreeSound hasher tree) {hash : UInt256} {e e' : CBlockIndex}
    (found : tree.mapBlockIndex.lookup hash = some e) (same : e'.identity = e.identity)
    (count : e'.nChainTx = e.nChainTx) (data : e'.nStatus.haveData = e.nStatus.haveData)
    (size : e'.nTx = e.nTx) (storable : e'.Storable) (filled : e'.Filled) :
    TreeSound hasher { tree with mapBlockIndex := tree.mapBlockIndex.insert hash e' } := by
  have pprev : e'.pprev = e.pprev := by
    simp only [identity, place, Prod.mk.injEq] at same
    exact same.1.2.1
  have shown : ∀ hash' : UInt256,
      (AList.lookup hash' (tree.mapBlockIndex.insert hash e')).map
          (fun f => (f.pprev, f.nStatus.haveData, f.nChainTx, f.nTx)) =
        (tree.mapBlockIndex.lookup hash').map
          (fun f => (f.pprev, f.nStatus.haveData, f.nChainTx, f.nTx)) := by
    intro hash'
    rw [lookup_insert_eq]
    by_cases equal : hash' = hash
    · rw [if_pos equal, equal, found, Option.map_some, Option.map_some, pprev, data, count, size]
    · rw [if_neg equal]
  have forth : ∀ {hash' f}, AList.lookup hash' (tree.mapBlockIndex.insert hash e') = some f →
      ∃ f', tree.mapBlockIndex.lookup hash' = some f' ∧ f'.pprev = f.pprev ∧
        f'.nStatus.haveData = f.nStatus.haveData ∧ f'.nChainTx = f.nChainTx ∧ f'.nTx = f.nTx := by
    intro hash' f found'
    have alike := shown hash'
    rw [found', Option.map_some] at alike
    obtain ⟨f', foundOld, fields⟩ := Option.map_eq_some_iff.mp alike.symm
    simp only [Prod.mk.injEq] at fields
    exact ⟨f', foundOld, fields⟩
  have back : ∀ {hash' f}, tree.mapBlockIndex.lookup hash' = some f →
      ∃ f', AList.lookup hash' (tree.mapBlockIndex.insert hash e') = some f' ∧
        f'.pprev = f.pprev ∧ f'.nStatus.haveData = f.nStatus.haveData ∧
        f'.nChainTx = f.nChainTx ∧ f'.nTx = f.nTx := by
    intro hash' f found'
    have alike := shown hash'
    rw [found', Option.map_some] at alike
    obtain ⟨f', foundNew, fields⟩ := Option.map_eq_some_iff.mp alike
    simp only [Prod.mk.injEq] at fields
    exact ⟨f', foundNew, fields⟩
  have counts : ∀ p, (BlockMap.deref (tree.mapBlockIndex.insert hash e') p).map
      nChainTx = (tree.mapBlockIndex.deref p).map nChainTx :=
    map_deref_insert nChainTx found count
  refine ⟨sound.entries.update found same storable filled,
    ⟨mem_unlinked_congr sound.queued.unlinked ?_, List.nodup_nil, ?_, ?_⟩, ?_, ?_⟩
  · intro hashPrev hash'
    constructor
    · rintro ⟨f, p, foundF, parent, dataF, foundP, zero⟩
      obtain ⟨f', foundF', parent', data', -, -⟩ := forth foundF
      obtain ⟨p', foundP', -, -, zero', -⟩ := forth foundP
      exact ⟨f', p', foundF', parent'.trans parent, data'.trans dataF, foundP', zero'.trans zero⟩
    rintro ⟨f, p, foundF, parent, dataF, foundP, zero⟩
    obtain ⟨f', foundF', parent', data', -, -⟩ := back foundF
    obtain ⟨p', foundP', -, -, zero', -⟩ := back foundP
    exact ⟨f', p', foundF', parent'.trans parent, data'.trans dataF, foundP', zero'.trans zero⟩
  · intro hash' f foundF _
    obtain ⟨f', foundF', parent', data', count', size'⟩ := forth foundF
    have counted := sound.queued.counted foundF' List.not_mem_nil
    rw [← count', counted]
    exact chainTx_congr (by rw [parent']; exact counts f.pprev) data' size'
  · intro hash' member
    cases member
  · intro hash' member
    obtain ⟨f, foundF, linked⟩ := sound.candidate hash' member
    obtain ⟨f', foundF', -, -, count', -⟩ := back foundF
    exact ⟨f', foundF', by rw [count']; exact linked⟩
  · intro hash' member
    rw [contains_insert, sound.tip hash' member, Bool.or_true]

theorem le_raiseValidity (status : BlockStatus) (nUpTo : Nat) :
    status.valid ≤ (status.raiseValidity nUpTo).valid := by
  unfold raiseValidity
  split
  · exact le_refl _
  · split
    · exact Nat.le_of_lt ‹_›
    · exact le_refl _

theorem raiseValidity_lt {status : BlockStatus} {nUpTo : Nat} (low : status.valid < 8)
    (upTo : nUpTo < 8) : (status.raiseValidity nUpTo).valid < 8 := by
  unfold raiseValidity
  split
  · exact low
  · split
    · exact upTo
    · exact low

namespace EntryWrite

variable {e : CBlockIndex}

theorem apply_storable (storable : e.Storable) (write : EntryWrite) (allowed : write.Allowed e) :
    (write.apply e).Storable := by
  obtain ⟨height, file, valid, mint, supply, version, noFile, noData, noUndo, noStake⟩ := storable
  cases write with
  | supply nMoneySupply nMint =>
    exact ⟨height, file, valid, allowed.2, allowed.1, version, noFile, noData, noUndo, noStake⟩
  | undo nPos =>
    exact ⟨height, file, valid, mint, supply, version, fun _ undo => (nomatch undo), noData,
      fun undo => (nomatch undo), noStake⟩
  | scripts =>
    refine ⟨height, file, raiseValidity_lt valid (by decide), mint, supply, version, ?_, ?_, ?_,
      noStake⟩
    · show (raiseValidity _ _).haveData = false →
        (raiseValidity _ _).haveUndo = false → _
      rw [raiseValidity_haveData, raiseValidity_haveUndo]
      exact noFile
    · show (raiseValidity _ _).haveData = false → _
      rw [raiseValidity_haveData]
      exact noData
    · show (raiseValidity _ _).haveUndo = false → _
      rw [raiseValidity_haveUndo]
      exact noUndo
  | failedValid =>
    exact ⟨height, file, valid, mint, supply, version, noFile, noData, noUndo, noStake⟩
  | failedChild =>
    exact ⟨height, file, valid, mint, supply, version, noFile, noData, noUndo, noStake⟩
  | reconsider =>
    exact ⟨height, file, valid, mint, supply, version, noFile, noData, noUndo, noStake⟩

theorem apply_filled (filled : e.Filled) (write : EntryWrite) (allowed : write.Allowed e) :
    (write.apply e).Filled := by
  obtain ⟨tree, valid, some⟩ := filled
  cases write with
  | scripts =>
    have data : e.nStatus.haveData = true := allowed
    have raised := le_raiseValidity e.nStatus BLOCK_VALID_SCRIPTS
    have kept := raiseValidity_haveData e.nStatus BLOCK_VALID_SCRIPTS
    exact ⟨le_trans tree raised, ⟨fun _ => le_trans (valid.mp data) raised,
      fun _ => kept.trans data⟩, fun _ => some data⟩
  | supply nMoneySupply nMint => exact ⟨tree, valid, some⟩
  | undo nPos => exact ⟨tree, valid, some⟩
  | failedValid => exact ⟨tree, valid, some⟩
  | failedChild => exact ⟨tree, valid, some⟩
  | reconsider => exact ⟨tree, valid, some⟩

theorem apply_identity (e : CBlockIndex) (write : EntryWrite) :
    (write.apply e).identity = e.identity := by
  cases write <;> rfl

theorem apply_nChainTx (e : CBlockIndex) (write : EntryWrite) :
    (write.apply e).nChainTx = e.nChainTx := by
  cases write <;> rfl

theorem apply_nTx (e : CBlockIndex) (write : EntryWrite) : (write.apply e).nTx = e.nTx := by
  cases write <;> rfl

theorem apply_haveData (e : CBlockIndex) (write : EntryWrite) :
    (write.apply e).nStatus.haveData = e.nStatus.haveData := by
  cases write with
  | scripts => exact raiseValidity_haveData _ _
  | supply nMoneySupply nMint => rfl
  | undo nPos => rfl
  | failedValid => rfl
  | failedChild => rfl
  | reconsider => rfl

end EntryWrite

/-! ## A block is received -/

namespace BlockTree

variable {block : CBlock} {pos : CDiskBlockPos} {e : CBlockIndex}

theorem receivedEntry_haveData (block : CBlock) (pos : CDiskBlockPos) (e : CBlockIndex) :
    (receivedEntry block pos e).nStatus.haveData = true :=
  raiseValidity_haveData _ _

theorem receivedEntry_storable (storable : e.Storable) (file : 0 ≤ pos.nFile) :
    (receivedEntry block pos e).Storable := by
  have data := receivedEntry_haveData block pos e
  refine ⟨storable.nHeight, file, raiseValidity_lt storable.valid (by decide), storable.nMint,
    storable.nMoneySupply, storable.nVersion, ?_, ?_, fun _ => rfl, ?_⟩
  · intro noData
    rw [data] at noData
    cases noData
  · intro noData
    rw [data] at noData
    cases noData
  · intro stake
    have flags : (e.nFlags.proofOfStake || block.isProofOfStake) = false := stake
    exact storable.noStake (Bool.or_eq_false_iff.mp flags).1

theorem receivedEntry_filled (filled : e.Filled) (allowed : e.nStatus.failed = false)
    (some : block.vtx ≠ []) : (receivedEntry block pos e).Filled := by
  have raised := le_raiseValidity { e.nStatus with haveData := true } BLOCK_VALID_TRANSACTIONS
  refine ⟨le_trans filled.tree raised, ⟨fun _ => ?_, fun _ => receivedEntry_haveData block pos e⟩,
    fun _ => ?_⟩
  · show BLOCK_VALID_TRANSACTIONS ≤
      (raiseValidity { e.nStatus with haveData := true } _).valid
    have notFailed : failed { e.nStatus with haveData := true } = false := allowed
    unfold raiseValidity
    rw [notFailed, if_neg Bool.false_ne_true]
    split
    · exact le_refl _
    · exact Nat.le_of_not_lt ‹_›
  · show block.vtx.length ≠ 0
    rw [Ne, List.length_eq_zero_iff]
    exact some

end BlockTree

open BlockTree

/-- The pairs that wait once a block is there that was not: those from before, and its own. -/
theorem waits_received {hash : UInt256} {e : CBlockIndex} (found : map.lookup hash = some e)
    (first : e.nStatus.haveData = false) (uncounted : e.nChainTx = 0) (e' : CBlockIndex)
    (parent : e'.pprev = e.pprev) (data : e'.nStatus.haveData = true) (still : e'.nChainTx = 0)
    (hashPrev hash' : UInt256) :
    (∃ f p, AList.lookup hash' (map.insert hash e') = some f ∧ f.pprev = some hashPrev ∧
      f.nStatus.haveData = true ∧ AList.lookup hashPrev (map.insert hash e') = some p ∧
      p.nChainTx = 0) ↔
    (∃ f p, map.lookup hash' = some f ∧ f.pprev = some hashPrev ∧ f.nStatus.haveData = true ∧
      map.lookup hashPrev = some p ∧ p.nChainTx = 0) ∨
    hash' = hash ∧ e.pprev = some hashPrev ∧
      ∃ p, map.lookup hashPrev = some p ∧ p.nChainTx = 0 := by
  have parents : (∃ p, AList.lookup hashPrev (map.insert hash e') = some p ∧ p.nChainTx = 0) ↔
      ∃ p, map.lookup hashPrev = some p ∧ p.nChainTx = 0 := by
    rw [lookup_insert_eq]
    by_cases equal : hashPrev = hash
    · rw [if_pos equal, equal]
      exact ⟨fun _ => ⟨e, found, uncounted⟩, fun _ => ⟨e', rfl, still⟩⟩
    · rw [if_neg equal]
  rw [lookup_insert_eq]
  constructor
  · rintro ⟨f, p, foundF, parentF, dataF, foundP, zero⟩
    obtain ⟨p', foundP', zero'⟩ := parents.mp ⟨p, foundP, zero⟩
    by_cases equal : hash' = hash
    · rw [if_pos equal] at foundF
      obtain rfl := Option.some.inj foundF
      exact Or.inr ⟨equal, parent.symm.trans parentF, p', foundP', zero'⟩
    · rw [if_neg equal] at foundF
      exact Or.inl ⟨f, p', foundF, parentF, dataF, foundP', zero'⟩
  rintro (⟨f, p, foundF, parentF, dataF, foundP, zero⟩ | ⟨equal, parentE, waits⟩)
  · obtain ⟨p', foundP', zero'⟩ := parents.mpr ⟨p, foundP, zero⟩
    have other : hash' ≠ hash := by
      rintro rfl
      obtain rfl := Option.some.inj (found.symm.trans foundF)
      rw [first] at dataF
      cases dataF
    exact ⟨f, p', (if_neg other).trans foundF, parentF, dataF, foundP', zero'⟩
  · obtain ⟨p', foundP', zero'⟩ := parents.mpr waits
    exact ⟨e', p', if_pos equal, parent.trans parentE, data, foundP', zero'⟩

/-- A block whose transactions come is not counted yet. -/
theorem TreeSound.uncounted (sound : TreeSound hasher tree) {hash : UInt256} {e : CBlockIndex}
    (found : tree.mapBlockIndex.lookup hash = some e) (first : e.nStatus.haveData = false) :
    e.nChainTx = 0 := by
  rw [sound.queued.counted found List.not_mem_nil]
  unfold chainTx
  rw [first]
  rfl

section Received

variable {block : CBlock} {pos : CDiskBlockPos} {e : CBlockIndex}

section

variable (sound : TreeSound hasher tree)
include sound

section

variable (found : tree.mapBlockIndex.lookup block.getHash = some e)
include found

/-- The parents of all blocks have the counts that they had when a block is received. -/
theorem TreeSound.received_counts (first : e.nStatus.haveData = false) (pprev : Option UInt256) :
    (BlockMap.deref (tree.mapBlockIndex.insert block.getHash (receivedEntry block pos e))
      pprev).map nChainTx = (tree.mapBlockIndex.deref pprev).map nChainTx :=
  map_deref_insert nChainTx found (sound.uncounted found first).symm pprev

theorem TreeSound.received_counted (first : e.nStatus.haveData = false) {hash : UInt256}
    {f : CBlockIndex} (other : hash ≠ block.getHash)
    (foundF : AList.lookup hash (tree.mapBlockIndex.insert block.getHash (receivedEntry block pos e)) = some f)
    :
    f.nChainTx = chainTx (tree.mapBlockIndex.insert block.getHash
      (receivedEntry block pos e)) f := by
  rw [lookup_insert_eq, if_neg other] at foundF
  rw [sound.queued.counted foundF List.not_mem_nil]
  exact chainTx_congr (sound.received_counts found first f.pprev) rfl rfl

theorem TreeSound.received_candidate (first : e.nStatus.haveData = false) :
    ∀ hash ∈ tree.setBlockIndexCandidates, ∃ f,
      AList.lookup hash (tree.mapBlockIndex.insert block.getHash (receivedEntry block pos e)) =
        some f ∧ f.nChainTx ≠ 0 := by
  intro hash member
  obtain ⟨f, foundF, linked⟩ := sound.candidate hash member
  have other : hash ≠ block.getHash := by
    rintro rfl
    obtain rfl := Option.some.inj (found.symm.trans foundF)
    exact linked (sound.uncounted found first)
  exact ⟨f, (AList.lookup_insert_ne other).trans foundF, linked⟩

end

theorem TreeSound.received_tip :
    ∀ hash ∈ tree.tip, contains (tree.mapBlockIndex.insert block.getHash
      (receivedEntry block pos e)) hash = true := by
  intro hash member
  rw [contains_insert, sound.tip hash member, Bool.or_true]

section

variable (found : tree.mapBlockIndex.lookup block.getHash = some e)
include found

/-- A received block whose parent is counted goes through the queue. -/
theorem TreeSound.received_linked (first : e.nStatus.haveData = false)
    (entries : EntriesSound hasher (tree.mapBlockIndex.insert block.getHash (receivedEntry block pos e)))
    (parentCounted : ∀ p, tree.mapBlockIndex.deref e.pprev = some p → p.nChainTx ≠ 0) :
    TreeSound hasher (BlockTree.linkQueue (tree.mapBlocksUnlinked.length + 1)
      { tree with
        mapBlockIndex := tree.mapBlockIndex.insert block.getHash (receivedEntry block pos e) }
      [block.getHash]) := by
  have uncounted := sound.uncounted found first
  have data := receivedEntry_haveData block pos e
  have waits := waits_received found first uncounted (receivedEntry block pos e) rfl data rfl
  have own : AList.lookup block.getHash (tree.mapBlockIndex.insert block.getHash
      (receivedEntry block pos e)) = some (receivedEntry block pos e) := AList.lookup_insert _
  refine TreeQueued.linkQueue ⟨entries, ⟨⟨sound.queued.unlinked.nodup, ?_⟩,
    List.nodup_singleton _, ?_, ?_⟩, sound.received_candidate found first, sound.received_tip⟩ ?_
  · intro hashPrev hash
    rw [sound.queued.unlinked.mem_iff]
    refine ((waits hashPrev hash).trans (or_iff_left ?_)).symm
    rintro ⟨-, parent, p, foundP, zero⟩
    exact parentCounted p (by rw [parent]; exact foundP) zero
  · intro hash f foundF notOwn
    have other : hash ≠ block.getHash := fun equal => notOwn (equal ▸ List.mem_singleton_self _)
    exact sound.received_counted found first other foundF
  · intro hash member
    obtain rfl := List.mem_singleton.mp member
    refine ⟨_, own, rfl, ?_⟩
    have size : (receivedEntry block pos e).nTx ≠ 0 := (entries.filled own).some data
    unfold chainTx
    rw [if_pos data]
    have parents := @TreeSound.received_counts _ _ block pos e sound found first
      (receivedEntry block pos e).pprev
    cases above : BlockMap.deref (tree.mapBlockIndex.insert block.getHash
        (receivedEntry block pos e)) (receivedEntry block pos e).pprev with
    | none => exact size
    | some p =>
      rw [above, Option.map_some] at parents
      obtain ⟨p', foundP, same⟩ := Option.map_eq_some_iff.mp parents.symm
      have positive : p.nChainTx ≠ 0 := same ▸ parentCounted p' foundP
      dsimp only
      rw [if_neg positive]
      omega
  · show 1 + tree.mapBlocksUnlinked.length ≤ tree.mapBlocksUnlinked.length + 1
    omega

/-- A received block whose parent is not counted waits for it. -/
theorem TreeSound.received_waiting (first : e.nStatus.haveData = false)
    (entries : EntriesSound hasher (tree.mapBlockIndex.insert block.getHash (receivedEntry block pos e)))
    {hashPrev : UInt256} {p : CBlockIndex} (parent : e.pprev = some hashPrev)
    (foundP : tree.mapBlockIndex.lookup hashPrev = some p) (zero : p.nChainTx = 0) :
    TreeSound hasher { tree with
      mapBlockIndex := tree.mapBlockIndex.insert block.getHash (receivedEntry block pos e)
      mapBlocksUnlinked := tree.mapBlocksUnlinked ++ [(hashPrev, block.getHash)] } := by
  have uncounted := sound.uncounted found first
  have data := receivedEntry_haveData block pos e
  have waits := waits_received found first uncounted (receivedEntry block pos e) rfl data rfl
  have other : hashPrev ≠ block.getHash := sound.entries.grounded.wellFormed.ne_pprev found parent
  refine ⟨entries, ⟨⟨?_, ?_⟩, List.nodup_nil, ?_, ?_⟩, sound.received_candidate found first,
    sound.received_tip⟩
  · refine List.Nodup.append sound.queued.unlinked.nodup (List.nodup_singleton _) ?_
    intro pair member isOwn
    obtain rfl := List.mem_singleton.mp isOwn
    obtain ⟨f, foundF, -, dataF, -⟩ := sound.queued.unlinked.child member
    obtain rfl := Option.some.inj (found.symm.trans foundF)
    rw [first] at dataF
    cases dataF
  · intro hashPrev' hash
    refine Iff.trans ?_ (waits hashPrev' hash).symm
    rw [List.mem_append, sound.queued.unlinked.mem_iff, List.mem_singleton, Prod.mk.injEq]
    refine or_congr_right ⟨?_, ?_⟩
    · rintro ⟨rfl, rfl⟩
      exact ⟨rfl, parent, p, foundP, zero⟩
    · rintro ⟨rfl, parent', -⟩
      exact ⟨Option.some.inj (parent'.symm.trans parent), rfl⟩
  · intro hash f foundF _
    by_cases own : hash = block.getHash
    · subst own
      rw [AList.lookup_insert] at foundF
      obtain rfl := Option.some.inj foundF
      have deref : tree.mapBlockIndex.deref (some hashPrev) = some p := foundP
      unfold chainTx
      rw [if_pos data, show (receivedEntry block pos e).pprev = some hashPrev from parent,
        deref_insert, if_neg fun equal => other (Option.some.inj equal), deref]
      exact (if_pos zero).symm
    · exact sound.received_counted found first own foundF
  · intro hash member
    cases member

theorem TreeSound.received (first : e.nStatus.haveData = false) (allowed : e.nStatus.failed = false)
    (parentAllowed : ∀ p, tree.mapBlockIndex.deref e.pprev = some p → p.nStatus.failed = false)
    (some : block.vtx ≠ []) (file : 0 ≤ pos.nFile) :
    TreeSound hasher (tree.receivedBlockTransactions block pos e) := by
  have wellFormed := sound.entries.grounded.wellFormed
  have entries : EntriesSound hasher
      (tree.mapBlockIndex.insert block.getHash (receivedEntry block pos e)) :=
    sound.entries.update found rfl
      (receivedEntry_storable (sound.entries.storable found) file)
      (receivedEntry_filled (sound.entries.filled found) allowed some)
  have linked := sound.received_linked found first entries
  unfold BlockTree.receivedBlockTransactions
  dsimp only
  rw [show (receivedEntry block pos e).pprev = e.pprev from rfl]
  cases parent : e.pprev with
  | none => exact linked (by rw [parent]; exact fun p none => nomatch none)
  | some hashPrev =>
    obtain ⟨p, foundP, -⟩ := wellFormed.parent found parent
    have other : hashPrev ≠ block.getHash := wellFormed.ne_pprev found parent
    rw [deref_insert, if_neg fun equal => other (Option.some.inj equal)]
    have deref : tree.mapBlockIndex.deref (.some hashPrev) = .some p := foundP
    rw [deref]
    dsimp only
    have valid : p.nStatus.isValid BLOCK_VALID_TREE = true := by
      have allowedP := parentAllowed p (by rw [parent]; exact foundP)
      unfold isValid
      rw [allowedP, decide_eq_true (sound.entries.filled foundP).tree]
      rfl
    by_cases zero : p.nChainTx = 0
    · rw [if_neg (not_not_intro zero), if_pos valid]
      exact sound.received_waiting found first entries parent foundP zero
    rw [if_pos zero]
    refine linked fun p' found' => ?_
    rw [parent, deref] at found'
    exact Option.some.inj found' ▸ zero

end

end

end Received

/-! ## Every move -/

/-- No candidate comes in. -/
theorem TreeSound.fewer (sound : TreeSound hasher tree) {candidates : Finset UInt256}
    (subset : candidates ⊆ tree.setBlockIndexCandidates) :
    TreeSound hasher { tree with setBlockIndexCandidates := candidates } :=
  ⟨sound.entries, sound.queued, fun hash member => sound.candidate hash (subset member), sound.tip⟩

theorem TreeSound.move (sound : TreeSound hasher tree) (move : TreeMove c hasher tree tree') :
    TreeSound hasher tree' := by
  cases move with
  | add hashed version parent => exact sound.addToBlockIndex hashed version parent
  | prove hash hashProofOfStake =>
    exact ⟨sound.entries, sound.queued, sound.candidate, sound.tip⟩
  | receive found first allowed parentAllowed some file =>
    exact sound.received found first allowed parentAllowed some file
  | write found write allowed =>
    exact sound.update found (write.apply_identity _) (write.apply_nChainTx _)
      (write.apply_haveData _) (write.apply_nTx _)
      (write.apply_storable (sound.entries.storable found) allowed)
      (write.apply_filled (sound.entries.filled found) allowed)
  | setTip found => exact ⟨sound.entries, sound.queued, sound.candidate, found⟩
  | eraseCandidate hash => exact sound.fewer (Finset.erase_subset _ _)
  | insertCandidate found valid linked =>
    refine ⟨sound.entries, sound.queued, fun hash member => ?_, sound.tip⟩
    rcases Finset.mem_insert.mp member with rfl | old
    · exact ⟨_, found, linked⟩
    · exact sound.candidate hash old
  | prune => exact sound.fewer (Finset.filter_subset _ _)

/-- The block a chain starts with (`chainparams.cpp:141-166`): it has transactions and no parent. -/
structure GenesisBlock (hasher : BlockHasher) (genesis : CBlock) : Prop where
  hashed : genesis.getHash = hasher.hash genesis.toCBlockHeader
  first : genesis.hashPrevBlock = 0
  version : InTwosComplement 4 genesis.nVersion
  some : genesis.vtx ≠ []

/-- The entry of a block without a parent. -/
def rootEntry (block : CBlock) : CBlockIndex :=
  { ofBlock block with
    nChainWork := getBlockProof block.nBits
    nStatus := (ofBlock block).nStatus.raiseValidity BLOCK_VALID_TREE }

theorem absent_empty {hash : UInt256} {e : CBlockIndex} {P : Prop}
    (found : AList.lookup hash (∅ : BlockMap) = some e) : P := by
  cases found

theorem TreeSound.empty (literal : UInt64) (address : UInt256 → Nat) :
    TreeSound hasher ⟨⟨∅, ∅, literal⟩, ∅, [], ∅, none, 1, address⟩ := by
  refine ⟨⟨⟨⟨absent_empty, absent_empty, absent_empty⟩, absent_empty⟩, absent_empty, absent_empty,
    absent_empty, absent_empty⟩, ⟨⟨List.nodup_nil, ?_⟩, List.nodup_nil, ?_, ?_⟩, ?_, ?_⟩
  · intro hashPrev hash
    constructor
    · intro member
      cases member
    · rintro ⟨e, pprev, found, -⟩
      exact absent_empty found
  · intro hash e found _
    exact absent_empty found
  · intro hash member
    cases member
  · intro hash member
    exact absurd member (Finset.notMem_empty hash)
  · intro hash member
    cases member

theorem grounded_root {genesis : CBlock} :
    Grounded (AList.insert genesis.getHash (rootEntry genesis) (∅ : BlockMap)) := by
  have own : ∀ {hash e},
      AList.lookup hash (AList.insert genesis.getHash (rootEntry genesis) (∅ : BlockMap)) =
        some e → hash = genesis.getHash ∧ e = rootEntry genesis := by
    intro hash e found
    rcases of_lookup_insert found with own | old
    · exact own
    · exact absent_empty old
  refine ⟨⟨?_, ?_, ?_⟩, ?_⟩
  · intro hash e found
    obtain ⟨rfl, rfl⟩ := own found
    rfl
  · intro hash e hashPrev found prev
    obtain ⟨rfl, rfl⟩ := own found
    cases prev
  · intro hash e found _
    obtain ⟨rfl, rfl⟩ := own found
    rfl
  · intro hash e found
    obtain ⟨rfl, rfl⟩ := own found
    exact le_refl 0

theorem rootEntry_storable {block : CBlock} (version : InTwosComplement 4 block.nVersion) :
    (rootEntry block).Storable := by
  have zero : InTwosComplement 8 (0 : Int) := ⟨by decide, by decide⟩
  refine ⟨le_refl 0, le_refl 0, ?_, zero, zero, version, fun _ _ => rfl, fun _ => rfl,
    fun _ => rfl, ?_⟩
  · show (raiseValidity {} BLOCK_VALID_TREE).valid < 8
    decide
  · intro stake
    have notStake : block.isProofOfStake = false := stake
    exact ⟨if_neg (by rw [notStake]; decide), if_neg (by rw [notStake]; decide)⟩

/-- The tree of a process that starts with nothing. -/
theorem TreeSound.init {genesis : CBlock} (block : GenesisBlock hasher genesis)
    {pos : CDiskBlockPos} (file : 0 ≤ pos.nFile) (literal : UInt64) (address : UInt256 → Nat) :
    TreeSound hasher (BlockTree.init c genesis pos literal address) := by
  have index : (IndexNode.addToBlockIndex c ⟨∅, ∅, literal⟩ genesis).mapBlockIndex =
      AList.insert genesis.getHash (rootEntry genesis) (∅ : BlockMap) := by
    rfl
  have header : hasher.hash (CDiskBlockIndex.ofIndex (rootEntry genesis)).header =
      genesis.getHash := by
    rw [block.hashed]
    unfold CDiskBlockIndex.header CDiskBlockIndex.ofIndex rootEntry ofBlock
    rw [Option.getD_none, ← block.first]
  have sound : TreeSound hasher
      (BlockTree.addToBlockIndex c ⟨⟨∅, ∅, literal⟩, ∅, [], ∅, none, 1, address⟩ genesis) := by
    refine (TreeSound.empty literal address).insertNew (AList.lookup_empty _) index rfl rfl rfl
      grounded_root header (rootEntry_storable block.version) ?_ nofun
      (CBlockIndex.Filled.of_new rfl) rfl rfl
    exact (Nat.zero_add _).symm
  unfold BlockTree.init
  dsimp only
  have found : (BlockTree.addToBlockIndex c ⟨⟨∅, ∅, literal⟩, ∅, [], ∅, none, 1, address⟩
      genesis).mapBlockIndex.lookup genesis.getHash = some (rootEntry genesis) := by
    exact AList.lookup_insert _
  rw [found]
  exact sound.received found rfl rfl (fun p none => nomatch none) block.some file

end Esbcoin
