import Esbcoin.Chain.BlockTree

namespace Esbcoin

open Bytes BlockMap List CDiskBlockIndex CBlockIndex

variable {c : StakeContext} {hasher : BlockHasher}

/-! ## Entries -/

/-- The work of an entry's chain from that of its parent. -/
def BlockMap.chainWork (map : BlockMap) (e : CBlockIndex) : Nat :=
  ((map.deref e.pprev).map CBlockIndex.nChainWork).getD 0 + getBlockProof e.nBits

/-- The transactions of an entry's chain from those of its parent, 0 if some are missing
(`main.cpp:3880-3891`). -/
def BlockMap.chainTx (map : BlockMap) (e : CBlockIndex) : Nat :=
  if e.nStatus.haveData then
    match map.deref e.pprev with
    | none => e.nTx
    | some pprev => if pprev.nChainTx = 0 then 0 else pprev.nChainTx + e.nTx
  else 0

/-- The block of an entry is there from the time its transactions are known to be valid. -/
structure CBlockIndex.Filled (e : CBlockIndex) : Prop where
  tree : BLOCK_VALID_TREE ≤ e.nStatus.valid
  valid : e.nStatus.haveData = true ↔ BLOCK_VALID_TRANSACTIONS ≤ e.nStatus.valid
  some : e.nStatus.haveData = true → e.nTx ≠ 0

/-- The entries hang together and can be stored. -/
structure EntriesSound (hasher : BlockHasher) (map : BlockMap) : Prop where
  grounded : Grounded map
  header : ∀ {hash e}, map.lookup hash = some e →
    hasher.hash (ofIndex e).header = hash
  storable : ∀ {hash e}, map.lookup hash = some e → e.Storable
  work : ∀ {hash e}, map.lookup hash = some e → e.nChainWork = map.chainWork e
  filled : ∀ {hash e}, map.lookup hash = some e → e.Filled

/-- What an entry shows of itself to the others and of its header. -/
def CBlockIndex.identity (e : CBlockIndex) :
    (Option UInt256 × Option UInt256 × Int) × Nat × Int × UInt256 × UInt32 × UInt32 × UInt32 :=
  (e.place, e.nChainWork, e.nVersion, e.hashMerkleRoot, e.nTime, e.nBits, e.nNonce)

variable {map : BlockMap} {hash : UInt256} {e e' : CBlockIndex}

theorem header_of_identity (same : e'.identity = e.identity) :
    (ofIndex e').header = (ofIndex e).header := by
  simp only [identity, place, Prod.mk.injEq] at same
  simp only [CDiskBlockIndex.header, ofIndex, same]

/-- Parents after an entry is changed. -/
theorem deref_insert (map : BlockMap) (hash : UInt256) (e' : CBlockIndex) (pprev : Option UInt256) :
    BlockMap.deref (map.insert hash e') pprev =
      if pprev = some hash then some e' else map.deref pprev := by
  cases pprev with
  | none => rfl
  | some hashPrev =>
    show AList.lookup hashPrev (map.insert hash e') = _
    rw [AssocMap.lookup_insert_eq]
    by_cases equal : hashPrev = hash
    · rw [if_pos equal, if_pos (congrArg some equal)]
    · rw [if_neg equal, if_neg fun same => equal (Option.some.inj same)]
      rfl

/-- What a changed entry keeps is found at the parents as before. -/
theorem map_deref_insert {β : Type} (f : CBlockIndex → β) (found : map.lookup hash = some e)
    (same : f e' = f e) (pprev : Option UInt256) :
    (BlockMap.deref (map.insert hash e') pprev).map f = (map.deref pprev).map f := by
  rw [deref_insert]
  by_cases equal : pprev = some hash
  · rw [if_pos equal, equal, Option.map_some, same]
    show _ = (map.lookup hash).map f
    rw [found, Option.map_some]
  · rw [if_neg equal]

/-- An entry that keeps its identity is changed. -/
theorem EntriesSound.update (sound : EntriesSound hasher map) (found : map.lookup hash = some e)
    (same : e'.identity = e.identity) (storable : e'.Storable) (filled : e'.Filled) :
    EntriesSound hasher (map.insert hash e') := by
  have fields := same
  simp only [identity, place, Prod.mk.injEq] at fields
  obtain ⟨⟨phashBlock, pprev, nHeight⟩, nChainWork, -, -, -, nBits, -⟩ := fields
  have sameTree : BlockMap.SameTree map (map.insert hash e') := by
    intro hash'
    rw [AssocMap.lookup_insert_eq]
    by_cases equal : hash' = hash
    · rw [if_pos equal, equal, found, Option.map_some, Option.map_some]
      simp only [place, phashBlock, pprev, nHeight]
    · rw [if_neg equal]
  have cases_of : ∀ {hash' e''}, AList.lookup hash' (map.insert hash e') = some e'' →
      hash' = hash ∧ e'' = e' ∨ map.lookup hash' = some e'' := by
    intro hash' e'' found'
    exact AssocMap.of_lookup_insert found'
  have works : ∀ pprev', (BlockMap.deref (map.insert hash e') pprev').map CBlockIndex.nChainWork =
      (map.deref pprev').map CBlockIndex.nChainWork :=
    map_deref_insert CBlockIndex.nChainWork found nChainWork
  refine ⟨⟨BlockMap.WellFormed.of_sameTree sameTree sound.grounded.wellFormed, ?_⟩, ?_, ?_, ?_, ?_⟩
  · intro hash' e'' found'
    rcases cases_of found' with ⟨rfl, rfl⟩ | old
    · rw [nHeight]
      exact sound.grounded.height found
    · exact sound.grounded.height old
  · intro hash' e'' found'
    rcases cases_of found' with ⟨rfl, rfl⟩ | old
    · rw [header_of_identity same]
      exact sound.header found
    · exact sound.header old
  · intro hash' e'' found'
    rcases cases_of found' with ⟨-, rfl⟩ | old
    · exact storable
    · exact sound.storable old
  · intro hash' e'' found'
    unfold chainWork
    rw [works]
    rcases cases_of found' with ⟨-, rfl⟩ | old
    · rw [nChainWork, pprev, nBits]
      exact sound.work found
    · exact sound.work old
  · intro hash' e'' found'
    rcases cases_of found' with ⟨-, rfl⟩ | old
    · exact filled
    · exact sound.filled old

/-! ## The queue of blocks that are linked -/

/-- The blocks whose parent's transactions are missing are exactly those of `mapBlocksUnlinked`. -/
structure UnlinkedSound (map : BlockMap) (unlinked : List (UInt256 × UInt256)) : Prop where
  nodup : unlinked.Nodup
  mem_iff : ∀ hashPrev hash, (hashPrev, hash) ∈ unlinked ↔
    ∃ e pprev, map.lookup hash = some e ∧ e.pprev = some hashPrev ∧ e.nStatus.haveData = true ∧
      map.lookup hashPrev = some pprev ∧ pprev.nChainTx = 0

/-- The blocks of the queue can be counted and are not; all others are counted. -/
structure Queued (map : BlockMap) (unlinked : List (UInt256 × UInt256)) (queue : List UInt256) :
    Prop where
  unlinked : UnlinkedSound map unlinked
  nodup : queue.Nodup
  counted : ∀ {hash e}, map.lookup hash = some e → hash ∉ queue → e.nChainTx = map.chainTx e
  waiting : ∀ {hash}, hash ∈ queue → ∃ e, map.lookup hash = some e ∧ e.nChainTx = 0 ∧
    map.chainTx e ≠ 0

/-- An entry as `ReceivedBlockTransactions` links it. -/
def linkedEntry (map : BlockMap) (nSequenceId : Nat) (e : CBlockIndex) : CBlockIndex :=
  { e with
    nChainTx := ((map.deref e.pprev).map CBlockIndex.nChainTx).getD 0 + e.nTx
    nSequenceId }

theorem chainTx_linked {map : BlockMap} {e : CBlockIndex} (some : map.chainTx e ≠ 0)
    (nSequenceId : Nat) : (linkedEntry map nSequenceId e).nChainTx = map.chainTx e := by
  unfold chainTx at some ⊢
  unfold linkedEntry
  by_cases data : e.nStatus.haveData = true
  · rw [if_pos data] at some ⊢
    cases parent : map.deref e.pprev with
    | none => exact Nat.zero_add _
    | some pprev =>
      rw [parent] at some
      by_cases linked : pprev.nChainTx = 0
      · exact absurd (if_pos linked) some
      · exact (if_neg linked).symm
  · rw [if_neg data] at some
    exact absurd rfl some

/-- The count takes from the parent its count and from the entry its data. -/
theorem chainTx_congr {map map' : BlockMap} {e e' : CBlockIndex}
    (counts : (map'.deref e.pprev).map CBlockIndex.nChainTx =
      (map.deref e'.pprev).map CBlockIndex.nChainTx)
    (data : e'.nStatus.haveData = e.nStatus.haveData) (size : e'.nTx = e.nTx) :
    map.chainTx e' = map'.chainTx e := by
  unfold chainTx
  rw [data, size]
  cases parent : map.deref e'.pprev with
  | none =>
    rw [parent, Option.map_none, Option.map_eq_none_iff] at counts
    rw [counts]
  | some p =>
    rw [parent, Option.map_some] at counts
    obtain ⟨p', found, count⟩ := Option.map_eq_some_iff.mp counts
    rw [found]
    dsimp only
    rw [count]

theorem haveData_of_chainTx {map : BlockMap} {e : CBlockIndex} (some : map.chainTx e ≠ 0) :
    e.nStatus.haveData = true := by
  by_cases data : e.nStatus.haveData = true
  · exact data
  · exact absurd (if_neg data) some

/-- The count of a block whose parent is another one than the block that is changed. -/
theorem chainTx_insert_ne {map : BlockMap} {hash : UInt256} {e' e : CBlockIndex}
    (other : e.pprev ≠ some hash) : chainTx (map.insert hash e') e = map.chainTx e := by
  unfold chainTx
  rw [deref_insert, if_neg other]

/-- The count of a child. -/
theorem chainTx_insert_child {map : BlockMap} {hash : UInt256} {e' e : CBlockIndex}
    (child : e.pprev = some hash) :
    chainTx (map.insert hash e') e =
      if e.nStatus.haveData then if e'.nChainTx = 0 then 0 else e'.nChainTx + e.nTx else 0 := by
  unfold chainTx
  rw [deref_insert, if_pos child]

variable {unlinked : List (UInt256 × UInt256)}

/-- The pairs that wait for a block have entries below it. -/
theorem UnlinkedSound.child {map : BlockMap} (sound : UnlinkedSound map unlinked)
    {hashPrev hash : UInt256} (member : (hashPrev, hash) ∈ unlinked) :
    ∃ e, map.lookup hash = some e ∧ e.pprev = some hashPrev ∧ e.nStatus.haveData = true ∧
      map.chainTx e = 0 := by
  obtain ⟨e, pprev, found, parent, data, foundPrev, uncounted⟩ := (sound.mem_iff _ _).mp member
  refine ⟨e, found, parent, data, ?_⟩
  have deref : map.deref e.pprev = some pprev := by rw [parent]; exact foundPrev
  unfold chainTx
  rw [if_pos data, deref]
  exact if_pos uncounted

/-- The blocks that wait for this one. -/
def childrenOf (unlinked : List (UInt256 × UInt256)) (hash : UInt256) : List UInt256 :=
  (unlinked.filter fun pair => pair.1 = hash).map Prod.snd

theorem mem_childrenOf {hash child : UInt256} :
    child ∈ childrenOf unlinked hash ↔ (hash, child) ∈ unlinked := by
  unfold childrenOf
  rw [mem_map]
  constructor
  · rintro ⟨⟨hashPrev, hash'⟩, member, rfl⟩
    obtain ⟨member, own⟩ := mem_filter.mp member
    have same : hashPrev = hash := of_decide_eq_true own
    exact same ▸ member
  · intro member
    exact ⟨_, mem_filter.mpr ⟨member, decide_eq_true rfl⟩, rfl⟩

theorem nodup_childrenOf (nodup : unlinked.Nodup) (hash : UInt256) :
    (childrenOf unlinked hash).Nodup := by
  refine List.Nodup.map_on ?_ (nodup.filter _)
  rintro ⟨hashPrev, child⟩ member ⟨hashPrev', child'⟩ member' (same : child = child')
  have own : hashPrev = hash := of_decide_eq_true (mem_filter.mp member).2
  have own' : hashPrev' = hash := of_decide_eq_true (mem_filter.mp member').2
  rw [own, own', same]

theorem Queued.link {map : BlockMap} {hash : UInt256} {queue : List UInt256}
    (wellFormed : map.WellFormed) (queued : Queued map unlinked (hash :: queue)) {e : CBlockIndex}
    (found : map.lookup hash = some e) (nSequenceId : Nat) :
    Queued (map.insert hash (linkedEntry map nSequenceId e))
      (unlinked.filter fun pair => pair.1 ≠ hash) (queue ++ childrenOf unlinked hash) := by
  obtain ⟨own, foundOwn, zero, countable⟩ := queued.waiting (mem_cons_self)
  obtain rfl : e = own := Option.some.inj (found.symm.trans foundOwn)
  obtain ⟨notInQueue, nodup⟩ := nodup_cons.mp queued.nodup
  have linked := chainTx_linked countable nSequenceId
  have notOwnChild : e.pprev ≠ some hash := fun child =>
    wellFormed.ne_pprev found child rfl
  have lookup_ne : ∀ {hash' : UInt256}, hash' ≠ hash →
      AList.lookup hash' (map.insert hash (linkedEntry map nSequenceId e)) = map.lookup hash' :=
    fun other => AList.lookup_insert_ne other
  have lookup_own : AList.lookup hash (map.insert hash (linkedEntry map nSequenceId e)) =
      some (linkedEntry map nSequenceId e) := AList.lookup_insert map
  -- The children of the block were not counted, as it was not.
  have uncounted : ∀ {child : CBlockIndex}, child.pprev = some hash → map.chainTx child = 0 := by
    intro child parent
    have deref : map.deref child.pprev = some e := by rw [parent]; exact found
    unfold chainTx
    rw [deref]
    dsimp only
    rw [if_pos zero, ite_self]
  have childNotQueued : ∀ {hash' : UInt256} {child : CBlockIndex}, map.lookup hash' = some child →
      child.pprev = some hash → hash' ∉ hash :: queue := by
    intro hash' child foundChild parent member
    obtain ⟨child', foundChild', -, some⟩ := queued.waiting member
    obtain rfl := Option.some.inj (foundChild.symm.trans foundChild')
    exact some (uncounted parent)
  refine ⟨⟨queued.unlinked.nodup.filter _, ?_⟩, ?_, ?_, ?_⟩
  · intro hashPrev hash'
    rw [mem_filter, queued.unlinked.mem_iff]
    constructor
    · rintro ⟨⟨child, pprev, foundChild, parent, data, foundPrev, none⟩, other⟩
      have otherPrev : hashPrev ≠ hash := of_decide_eq_true other
      by_cases same : hash' = hash
      · subst same
        obtain rfl := Option.some.inj (found.symm.trans foundChild)
        exact ⟨_, pprev, lookup_own, parent, data, (lookup_ne otherPrev).trans foundPrev, none⟩
      · exact ⟨child, pprev, (lookup_ne same).trans foundChild, parent, data,
          (lookup_ne otherPrev).trans foundPrev, none⟩
    rintro ⟨child, pprev, foundChild, parent, data, foundPrev, none⟩
    have otherPrev : hashPrev ≠ hash := by
      rintro rfl
      rw [lookup_own, Option.some.injEq] at foundPrev
      rw [← foundPrev, linked] at none
      exact countable none
    rw [lookup_ne otherPrev] at foundPrev
    refine ⟨?_, decide_eq_true otherPrev⟩
    by_cases same : hash' = hash
    · subst same
      rw [lookup_own, Option.some.injEq] at foundChild
      subst foundChild
      exact ⟨e, pprev, found, parent, data, foundPrev, none⟩
    · rw [lookup_ne same] at foundChild
      exact ⟨child, pprev, foundChild, parent, data, foundPrev, none⟩
  · refine List.Nodup.append nodup (nodup_childrenOf queued.unlinked.nodup hash) ?_
    intro hash' inQueue isChild
    obtain ⟨child, foundChild, parent, -, -⟩ := queued.unlinked.child (mem_childrenOf.mp isChild)
    exact childNotQueued foundChild parent (mem_cons_of_mem _ inQueue)
  · intro hash' e' found' notQueued
    rw [mem_append, not_or] at notQueued
    by_cases same : hash' = hash
    · subst same
      rw [lookup_own, Option.some.injEq] at found'
      subst found'
      rw [chainTx_insert_ne (show (linkedEntry map nSequenceId e).pprev ≠ _ from notOwnChild),
        linked]
      rfl
    rw [lookup_ne same] at found'
    by_cases child : e'.pprev = some hash
    · have before := queued.counted found' (childNotQueued found' child)
      rw [uncounted child] at before
      rw [before, chainTx_insert_child child]
      by_cases data : e'.nStatus.haveData = true
      · exact absurd (mem_childrenOf.mpr ((queued.unlinked.mem_iff _ _).mpr
          ⟨e', e, found', child, data, found, zero⟩)) notQueued.2
      · exact (if_neg data).symm
    · rw [chainTx_insert_ne child]
      refine queued.counted found' fun member => ?_
      rcases mem_cons.mp member with equal | inQueue
      · exact same equal
      · exact notQueued.1 inQueue
  · intro hash' member
    rcases mem_append.mp member with inQueue | isChild
    · obtain ⟨e', found', none, some⟩ := queued.waiting (mem_cons_of_mem _ inQueue)
      have same : hash' ≠ hash := fun equal => notInQueue (equal ▸ inQueue)
      refine ⟨e', (lookup_ne same).trans found', none, ?_⟩
      rw [chainTx_insert_ne fun child => some (uncounted child)]
      exact some
    obtain ⟨e', found', parent, data, none⟩ := queued.unlinked.child (mem_childrenOf.mp isChild)
    have same : hash' ≠ hash := by
      rintro rfl
      obtain rfl := Option.some.inj (found.symm.trans found')
      exact notOwnChild parent
    refine ⟨e', (lookup_ne same).trans found', ?_, ?_⟩
    · rw [queued.counted found' (childNotQueued found' parent), none]
    · rw [chainTx_insert_child parent, if_pos data, linked, if_neg countable]
      omega

/-! ## The tree -/

/-- The tree of a process, while the blocks of a queue are linked. -/
structure TreeQueued (hasher : BlockHasher) (tree : BlockTree) (queue : List UInt256) : Prop where
  entries : EntriesSound hasher tree.mapBlockIndex
  queued : Queued tree.mapBlockIndex tree.mapBlocksUnlinked queue
  candidate : ∀ hash ∈ tree.setBlockIndexCandidates, ∃ e, tree.mapBlockIndex.lookup hash = some e ∧
    e.nChainTx ≠ 0
  tip : ∀ hash ∈ tree.tip, tree.mapBlockIndex.contains hash = true

/-- What every tree keeps. -/
def TreeSound (hasher : BlockHasher) (tree : BlockTree) : Prop := TreeQueued hasher tree []

variable {tree : BlockTree} {queue : List UInt256}

theorem mapBlockIndex_link (tree : BlockTree) (hash : UInt256) (e : CBlockIndex) :
    (tree.link hash e).mapBlockIndex =
      tree.mapBlockIndex.insert hash (linkedEntry tree.mapBlockIndex tree.nBlockSequenceId e) := by
  unfold BlockTree.link
  dsimp only
  split <;> rfl

theorem mapBlocksUnlinked_link (tree : BlockTree) (hash : UInt256) (e : CBlockIndex) :
    (tree.link hash e).mapBlocksUnlinked = tree.mapBlocksUnlinked := by
  unfold BlockTree.link
  dsimp only
  split <;> rfl

theorem tip_link (tree : BlockTree) (hash : UInt256) (e : CBlockIndex) :
    (tree.link hash e).tip = tree.tip := by
  unfold BlockTree.link
  dsimp only
  split <;> rfl

theorem mem_candidates_link {tree : BlockTree} {hash hash' : UInt256} {e : CBlockIndex}
    (member : hash' ∈ (tree.link hash e).setBlockIndexCandidates) :
    hash' = hash ∨ hash' ∈ tree.setBlockIndexCandidates := by
  unfold BlockTree.link at member
  dsimp only at member
  split at member
  · exact Finset.mem_insert.mp member
  · exact Or.inr member

theorem TreeQueued.link {hash : UInt256} {e : CBlockIndex}
    (sound : TreeQueued hasher tree (hash :: queue))
    (found : tree.mapBlockIndex.lookup hash = some e) :
    TreeQueued hasher { tree.link hash e with
        mapBlocksUnlinked := (tree.link hash e).mapBlocksUnlinked.filter fun pair =>
          pair.1 ≠ hash }
      (queue ++ childrenOf (tree.link hash e).mapBlocksUnlinked hash) := by
  obtain ⟨own, foundOwn, -, countable⟩ := sound.queued.waiting mem_cons_self
  obtain rfl : e = own := Option.some.inj (found.symm.trans foundOwn)
  have count := chainTx_linked countable tree.nBlockSequenceId
  refine ⟨?_, ?_, ?_, ?_⟩
  · show EntriesSound hasher (tree.link hash e).mapBlockIndex
    rw [mapBlockIndex_link]
    have storable := sound.entries.storable found
    have filled := sound.entries.filled found
    refine sound.entries.update found rfl ?_ ?_
    · exact ⟨storable.nHeight, storable.nFile, storable.valid, storable.nMint,
        storable.nMoneySupply, storable.nVersion, storable.noFile, storable.noData,
        storable.noUndo, storable.noStake⟩
    · exact ⟨filled.tree, filled.valid, filled.some⟩
  · show Queued (tree.link hash e).mapBlockIndex _ _
    rw [mapBlockIndex_link, mapBlocksUnlinked_link]
    exact sound.queued.link sound.entries.grounded.wellFormed found _
  · intro hash' member
    rw [mapBlockIndex_link, AssocMap.lookup_insert_eq]
    by_cases equal : hash' = hash
    · exact ⟨_, if_pos equal, by rw [count]; exact countable⟩
    rw [if_neg equal]
    rcases mem_candidates_link member with same | old
    · exact absurd same equal
    · exact sound.candidate hash' old
  · intro hash' isTip
    rw [show (tree.link hash e).tip = tree.tip from tip_link tree hash e] at isTip
    rw [mapBlockIndex_link, AssocMap.contains_insert, sound.tip hash' isTip, Bool.or_true]

/-- The loop of `ReceivedBlockTransactions` ends with every block of the queue linked. -/
theorem TreeQueued.linkQueue {fuel : Nat} (sound : TreeQueued hasher tree queue)
    (enough : queue.length + tree.mapBlocksUnlinked.length ≤ fuel) :
    TreeSound hasher (tree.linkQueue fuel queue) := by
  induction fuel generalizing tree queue with
  | zero =>
    cases queue with
    | nil => exact sound
    | cons hash queue => exact absurd enough (by simp)
  | succ fuel ih =>
    cases queue with
    | nil => exact sound
    | cons hash queue =>
      obtain ⟨e, found, -, -⟩ := sound.queued.waiting mem_cons_self
      unfold BlockTree.linkQueue
      rw [found]
      refine ih (sound.link found) ?_
      have split := (tree.link hash e).mapBlocksUnlinked.length_eq_length_filter_add
        fun pair => decide (pair.1 = hash)
      have rest : ((tree.link hash e).mapBlocksUnlinked.filter fun pair =>
          !decide (pair.1 = hash)) =
          (tree.link hash e).mapBlocksUnlinked.filter fun pair => pair.1 ≠ hash := by
        simp only [decide_not]
      rw [rest] at split
      rw [mapBlocksUnlinked_link] at split ⊢
      simp only [length_append, length_map, length_cons] at enough ⊢
      omega

end Esbcoin
