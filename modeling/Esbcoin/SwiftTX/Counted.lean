import Esbcoin.SwiftTX.Expiry
import Mathlib.Data.List.Dedup

/-!
# Counted votes and held votes

`CountSignatures` counts in the vector of a lock; the votes the node holds are those of
`mapTxLockVote` that passed the checks when they came in. Both come from the same deliveries, and
`VotesKept` says that they stay together.
-/

namespace Esbcoin.SwiftTX

open StepRun

/-- A state, and at which slots of `mapTxLockVote` the vote had failed a check. -/
abbrev WatchedState := SwiftTXState × (UInt256 → Bool)

/-- The masternodes whose valid vote for a transaction and a height the node holds. -/
def voters (w : WatchedState) (hash : UInt256) (nBlockHeight : Int) : List COutPoint :=
  ((w.1.mapTxLockVote.entries.filter fun entry =>
      !w.2 entry.1 && entry.2.txHash == hash && entry.2.nBlockHeight == nBlockHeight).map
    fun entry => entry.2.vinMasternode.prevout).dedup

/-- Every lock with a known height counts the masternodes whose votes the node holds. -/
def CountsHeld (w : WatchedState) : Prop :=
  ∀ hash lock, w.1.mapTxLocks.lookup hash = some lock → lock.nBlockHeight ≠ 0 →
    lock.countSignatures = (voters w hash lock.nBlockHeight).length

/-- The lock of the transaction has a vote of the same masternode for the same height. -/
def Counted (s : SwiftTXState) (vote : CConsensusVote) : Prop :=
  ∃ counted ∈ votesOf s vote.txHash,
    counted.vinMasternode.prevout = vote.vinMasternode.prevout ∧
      counted.nBlockHeight = vote.nBlockHeight

/-- A counted vote and what is stored in its slot. -/
structure HeldFor (w : WatchedState) (hash : UInt256) (vote stored : CConsensusVote) : Prop where
  found : w.1.mapTxLockVote.lookup vote.getHash = some stored
  passed : w.2 vote.getHash = false
  tx : stored.txHash = hash
  masternode : stored.vinMasternode.prevout = vote.vinMasternode.prevout
  height : stored.nBlockHeight = vote.nBlockHeight

variable {s : SwiftTXState} {hash : UInt256} {vote : CConsensusVote}

/-- A vote stays held where another slot is written. -/
theorem HeldFor.insert {w : WatchedState} {stored ctx : CConsensusVote}
    (held : HeldFor w hash vote stored)
    (slots : s.mapTxLockVote = w.1.mapTxLockVote.insert ctx.getHash ctx)
    (apart : vote.getHash ≠ ctx.getHash) (failed : Bool) :
    HeldFor (s, Function.update w.2 ctx.getHash failed) hash vote stored where
  found := by
    rw [slots, AssocMap.lookup_insert_eq, if_neg apart]
    exact held.found
  passed := (Function.update_of_ne apart _ _).trans held.passed
  tx := held.tx
  masternode := held.masternode
  height := held.height

/-- The votes of the locks are the valid votes for known heights that the node holds. -/
structure VotesKept (w : WatchedState) : Prop where
  locks : LocksFiled w.1.mapTxLocks
  slots : ∀ slot vote, w.1.mapTxLockVote.lookup slot = some vote → vote.getHash = slot
  own : ∀ hash, ∀ vote ∈ votesOf w.1 hash, vote.txHash = hash
  distinct : ∀ hash, ((votesOf w.1 hash).map CConsensusVote.getHash).Nodup
  held : ∀ hash, ∀ vote ∈ votesOf w.1 hash, ∃ stored, HeldFor w hash vote stored
  counted : ∀ slot vote, w.1.mapTxLockVote.lookup slot = some vote → w.2 slot = false →
    vote.nBlockHeight ≠ 0 → Counted w.1 vote

theorem mem_voters {w : WatchedState} {nBlockHeight : Int} {o : COutPoint} :
    o ∈ voters w hash nBlockHeight ↔ ∃ slot vote, w.1.mapTxLockVote.lookup slot = some vote ∧
      w.2 slot = false ∧ vote.txHash = hash ∧ vote.nBlockHeight = nBlockHeight ∧
        vote.vinMasternode.prevout = o := by
  simp only [voters, List.mem_dedup, List.mem_map, List.mem_filter, Bool.and_eq_true,
    Bool.not_eq_eq_eq_not, Bool.not_true, beq_iff_eq]
  constructor
  · rintro ⟨⟨slot, vote⟩, ⟨member, ⟨passed, tx⟩, height⟩, rfl⟩
    exact ⟨slot, vote, AList.mem_lookup_iff.mpr member, passed, tx, height, rfl⟩
  · rintro ⟨slot, vote, found, passed, tx, height, rfl⟩
    exact ⟨⟨slot, vote⟩, ⟨AList.mem_lookup_iff.mp found, ⟨passed, tx⟩, height⟩, rfl⟩

theorem getHash_congr {other : CConsensusVote}
    (masternode : vote.vinMasternode.prevout = other.vinMasternode.prevout)
    (tx : vote.txHash = other.txHash) : vote.getHash = other.getHash := by
  unfold CConsensusVote.getHash
  rw [masternode, tx]

theorem votesOf_lock {lock : CTransactionLock} (found : s.mapTxLocks.lookup hash = some lock) :
    votesOf s hash = lock.vecConsensusVotes := by
  rw [votesOf, found]

open Classical in
/-- A call takes away the votes of the locks it drops. -/
theorem votesOf_clean_eq (env : SwiftTXEnv) (s : SwiftTXState) (hash : UInt256) :
    votesOf (cleanTransactionLocksList env s) hash =
      if Drops env s hash then [] else votesOf s hash := by
  have same : (cleanTransactionLocksList env s).mapTxLocks.lookup hash =
      if Drops env s hash then none else s.mapTxLocks.lookup hash := by
    ext lock
    rw [lookup_locks_clean.1 hash lock]
    split <;> simp [*]
  by_cases drops : Drops env s hash
  · rw [votesOf, same, if_pos drops, if_pos drops]
  · rw [votesOf, same, if_neg drops, if_neg drops, votesOf]

theorem mem_votesOf_clean {env : SwiftTXEnv} :
    vote ∈ votesOf (cleanTransactionLocksList env s) hash ↔
      vote ∈ votesOf s hash ∧ ¬ Drops env s hash := by
  rw [votesOf_clean_eq]
  split <;> simp [*]

namespace VotesKept

variable {w : WatchedState}

theorem init : VotesKept (SwiftTXState.init, fun _ => false) where
  locks := fun _ _ found => by cases found
  slots := fun _ _ found => by cases found
  own := fun _ _ member => by cases member
  distinct := fun _ => List.nodup_nil
  held := fun _ _ member => by cases member
  counted := fun _ _ found => by cases found

/-- No masternode votes twice in a lock. -/
theorem masternodes_nodup (kept : VotesKept w) (hash : UInt256) :
    ((votesOf w.1 hash).map fun vote => vote.vinMasternode.prevout).Nodup := by
  have distinct := kept.distinct hash
  rw [List.Nodup, List.pairwise_map] at distinct ⊢
  refine List.Pairwise.imp_of_mem ?_ distinct
  intro vote other first second apart same
  have ofOne : vote.txHash = other.txHash :=
    (kept.own hash vote first).trans (kept.own hash other second).symm
  exact apart (getHash_congr same ofOne)

theorem countsHeld (kept : VotesKept w) : CountsHeld w := by
  intro hash lock found known
  have counting := votesOf_lock found
  have once : (voters w hash lock.nBlockHeight).Nodup := List.nodup_dedup _
  -- both sides list the same masternodes
  have same : (voters w hash lock.nBlockHeight).Perm
      ((lock.vecConsensusVotes.filter fun v => v.nBlockHeight == lock.nBlockHeight).map
        fun vote => vote.vinMasternode.prevout) := by
    refine (List.perm_ext_iff_of_nodup once ?_).mpr fun o => ?_
    · rw [← counting]
      exact (kept.masternodes_nodup hash).sublist (List.filter_sublist.map _)
    rw [mem_voters]
    simp only [List.mem_map, List.mem_filter, beq_iff_eq]
    constructor
    · rintro ⟨slot, vote, stored, passed, rfl, height, rfl⟩
      obtain ⟨counted, member, masternode, heights⟩ :=
        kept.counted slot vote stored passed (height ▸ known)
      rw [counting] at member
      exact ⟨counted, ⟨member, heights.trans height⟩, masternode⟩
    rintro ⟨vote, ⟨member, height⟩, rfl⟩
    rw [← counting] at member
    obtain ⟨stored, held⟩ := kept.held hash vote member
    exact ⟨vote.getHash, stored, held.found, held.passed, held.tx, held.height.trans height,
      held.masternode⟩
  rw [CTransactionLock.countSignatures, if_neg known, same.length_eq, List.length_map]

/-! ## One step -/

variable {s : SwiftTXState} {ctx : CConsensusVote}

section

variable (kept : VotesKept w)
include kept

/-- A step that leaves the votes alone. -/
theorem of_same (locks : LocksFiled s.mapTxLocks)
    (votes : ∀ hash, votesOf s hash = votesOf w.1 hash)
    (slots : s.mapTxLockVote = w.1.mapTxLockVote) : VotesKept (s, w.2) where
  locks := locks
  slots := fun slot vote found => kept.slots slot vote (slots ▸ found)
  own := fun hash vote member => kept.own hash vote (votes hash ▸ member)
  distinct := fun hash => by
    show ((votesOf s hash).map CConsensusVote.getHash).Nodup
    rw [votes]
    exact kept.distinct hash
  held := fun hash vote member => by
    obtain ⟨stored, held⟩ := kept.held hash vote (votes hash ▸ member)
    exact ⟨stored, by rw [slots]; exact held.found, held.passed, held.tx, held.masternode,
      held.height⟩
  counted := fun slot vote found passed known => by
    obtain ⟨counted, member, same⟩ := kept.counted slot vote (slots ▸ found) passed known
    exact ⟨counted, by rw [votes]; exact member, same⟩

/-- Two votes of locks at one slot are votes of one masternode, for one transaction and height. -/
theorem same_of_slot {hash hash' : UInt256} {vote other : CConsensusVote}
    (member : vote ∈ votesOf w.1 hash) (member' : other ∈ votesOf w.1 hash')
    (slot : vote.getHash = other.getHash) :
    hash = hash' ∧ vote.vinMasternode.prevout = other.vinMasternode.prevout ∧
      vote.nBlockHeight = other.nBlockHeight := by
  obtain ⟨stored, held⟩ := kept.held hash vote member
  obtain ⟨stored', held'⟩ := kept.held hash' other member'
  obtain rfl := Option.some.inj ((slot ▸ held.found).symm.trans held'.found)
  exact ⟨held.tx.symm.trans held'.tx, held.masternode.symm.trans held'.masternode,
    held.height.symm.trans held'.height⟩

/-- A vote is stored under its hash. -/
theorem slots_insert (slots : s.mapTxLockVote = w.1.mapTxLockVote.insert ctx.getHash ctx)
    (slot : UInt256) (vote : CConsensusVote) (found : s.mapTxLockVote.lookup slot = some vote) :
    vote.getHash = slot := by
  rw [slots, AssocMap.lookup_insert_eq] at found
  split at found
  · rename_i equal
    obtain rfl := Option.some.inj found
    exact equal.symm
  · exact kept.slots slot vote found

theorem apart_of_fresh {slot : UInt256} (fresh : w.1.mapTxLockVote.lookup slot = none)
    (hash : UInt256) {vote : CConsensusVote} (member : vote ∈ votesOf w.1 hash) :
    vote.getHash ≠ slot := by
  intro equal
  obtain ⟨stored, held⟩ := kept.held hash vote member
  have taken := held.found
  rw [equal, fresh] at taken
  cases taken

/-- The node's own vote takes a slot: it is in its lock already, or it is for an unknown height and
the slot was not that of a counted vote. -/
theorem storeOwn
    (harmless : Counted w.1 ctx ∨ ctx.nBlockHeight = 0 ∧
      ∀ vote, w.1.mapTxLockVote.lookup ctx.getHash = some vote → ¬ Counted w.1 vote)
    (locks : LocksFiled s.mapTxLocks) (votes : ∀ hash, votesOf s hash = votesOf w.1 hash)
    (slots : s.mapTxLockVote = w.1.mapTxLockVote.insert ctx.getHash ctx) :
    VotesKept (s, Function.update w.2 ctx.getHash false) where
  locks := locks
  slots := kept.slots_insert slots
  own := fun hash vote member => kept.own hash vote (votes hash ▸ member)
  distinct := fun hash => by
    show ((votesOf s hash).map CConsensusVote.getHash).Nodup
    rw [votes]
    exact kept.distinct hash
  held := fun hash vote member => by
    have before : vote ∈ votesOf w.1 hash := votes hash ▸ member
    obtain ⟨stored, held⟩ := kept.held hash vote before
    by_cases equal : vote.getHash = ctx.getHash
    · rcases harmless with ⟨counted, inside, masternode, height⟩ | ⟨-, free⟩
      · have slot : vote.getHash = counted.getHash :=
          equal.trans (getHash_congr masternode (kept.own _ counted inside)).symm
        obtain ⟨rfl, masternode', height'⟩ := kept.same_of_slot before inside slot
        refine ⟨ctx, ?_, ?_, rfl, masternode.symm.trans masternode'.symm,
          height.symm.trans height'.symm⟩
        · rw [slots, equal, AssocMap.lookup_insert_eq, if_pos rfl]
        · exact equal ▸ Function.update_self _ _ _
      · refine absurd ?_ (free stored (equal ▸ held.found))
        exact ⟨vote, held.tx ▸ before, held.masternode.symm, held.height.symm⟩
    · exact ⟨stored, held.insert slots equal false⟩
  counted := fun slot vote found passed known => by
    have same : ∀ vote, Counted w.1 vote → Counted s vote := fun vote counted => by
      obtain ⟨counted, member, same⟩ := counted
      exact ⟨counted, by rw [votes]; exact member, same⟩
    rw [slots, AssocMap.lookup_insert_eq] at found
    split at found
    · obtain rfl := Option.some.inj found
      rcases harmless with counted | ⟨unknown, -⟩
      · exact same _ counted
      · exact absurd unknown known
    · rename_i apart
      have passed' := (Function.update_of_ne apart _ _).symm.trans passed
      exact same vote (kept.counted slot vote found passed' known)

/-- A vote that fails a check is stored where nothing was. -/
theorem storeFailed (fresh : w.1.mapTxLockVote.lookup ctx.getHash = none)
    (locks : s.mapTxLocks = w.1.mapTxLocks)
    (slots : s.mapTxLockVote = w.1.mapTxLockVote.insert ctx.getHash ctx) :
    VotesKept (s, Function.update w.2 ctx.getHash true) where
  locks := by
    rw [locks]
    exact kept.locks
  slots := kept.slots_insert slots
  own := fun hash vote member => kept.own hash vote (votesOf_congr locks hash ▸ member)
  distinct := fun hash => by
    rw [votesOf_congr locks]
    exact kept.distinct hash
  held := fun hash vote member => by
    have before : vote ∈ votesOf w.1 hash := votesOf_congr locks hash ▸ member
    obtain ⟨stored, held⟩ := kept.held hash vote before
    exact ⟨stored, held.insert slots (kept.apart_of_fresh fresh hash before) true⟩
  counted := fun slot vote found passed known => by
    rw [slots, AssocMap.lookup_insert_eq] at found
    split at found
    · rename_i equal
      subst equal
      cases (Function.update_self _ _ _).symm.trans passed
    rename_i apart
    have passed' := (Function.update_of_ne apart _ _).symm.trans passed
    obtain ⟨counted, member, same⟩ := kept.counted slot vote found passed' known
    exact ⟨counted, by rw [votesOf_congr locks]; exact member, same⟩

/-- A valid vote is stored where nothing was and goes into its lock. -/
theorem storeValid (fresh : w.1.mapTxLockVote.lookup ctx.getHash = none)
    (locks : LocksFiled s.mapTxLocks)
    (votes : ∀ hash, votesOf s hash =
      if hash = ctx.txHash then votesOf w.1 hash ++ [ctx] else votesOf w.1 hash)
    (slots : s.mapTxLockVote = w.1.mapTxLockVote.insert ctx.getHash ctx) :
    VotesKept (s, Function.update w.2 ctx.getHash false) := by
  have split : ∀ hash vote, vote ∈ votesOf s hash ↔
      vote ∈ votesOf w.1 hash ∨ hash = ctx.txHash ∧ vote = ctx := by
    intro hash vote
    rw [votes]
    by_cases equal : hash = ctx.txHash <;> simp [equal]
  have grows : ∀ vote, Counted w.1 vote → Counted s vote := fun vote counted => by
    obtain ⟨counted, member, same⟩ := counted
    exact ⟨counted, (split _ _).mpr (Or.inl member), same⟩
  refine ⟨locks, ?_, ?_, ?_, ?_, ?_⟩
  · exact kept.slots_insert slots
  · intro hash vote member
    rcases (split hash vote).mp member with old | ⟨rfl, rfl⟩
    · exact kept.own hash vote old
    · rfl
  · intro hash
    rw [votes]
    split
    · rw [List.map_append, List.map_singleton]
      refine (kept.distinct hash).append (List.nodup_singleton _) ?_
      rw [List.disjoint_singleton]
      intro inside
      obtain ⟨vote, member, equal⟩ := List.mem_map.mp inside
      exact kept.apart_of_fresh fresh hash member equal
    · exact kept.distinct hash
  · intro hash vote member
    rcases (split hash vote).mp member with old | ⟨rfl, rfl⟩
    · obtain ⟨stored, held⟩ := kept.held hash vote old
      exact ⟨stored, held.insert slots (kept.apart_of_fresh fresh hash old) false⟩
    · refine ⟨vote, ?_, Function.update_self _ _ _, rfl, rfl, rfl⟩
      rw [slots, AssocMap.lookup_insert_eq, if_pos rfl]
  · intro slot vote found passed known
    rw [slots, AssocMap.lookup_insert_eq] at found
    split at found
    · obtain rfl := Option.some.inj found
      exact ⟨ctx, (split _ _).mpr (Or.inr ⟨rfl, rfl⟩), rfl, rfl⟩
    · rename_i other
      have passed' := (Function.update_of_ne other _ _).symm.trans passed
      exact grows vote (kept.counted slot vote found passed' known)

/-- Locks are dropped together with their votes. -/
theorem clean {env : SwiftTXEnv}
    (requested : ∀ hash lock, Drops env w.1 hash → w.1.mapTxLocks.lookup hash = some lock →
      w.1.mapTxLockReq.contains hash = false → ∀ vote ∈ lock.vecConsensusVotes, vote.nBlockHeight = 0)
    :
    VotesKept (cleanTransactionLocksList env w.1, w.2) := by
  obtain ⟨-, slots⟩ := lookup_clean kept.locks
  refine ⟨locksFiled_clean kept.locks, ?_, ?_, ?_, ?_, ?_⟩
  · exact fun slot vote found => kept.slots slot vote ((slots slot vote).mp found).1
  · exact fun hash vote member => kept.own hash vote (mem_votesOf_clean.mp member).1
  · intro hash
    rw [votesOf_clean_eq]
    split
    · exact List.nodup_nil
    · exact kept.distinct hash
  · intro hash vote member
    obtain ⟨before, alive⟩ := mem_votesOf_clean.mp member
    obtain ⟨stored, held⟩ := kept.held hash vote before
    refine ⟨stored, (slots _ _).mpr ⟨held.found, ?_⟩, held.passed, held.tx, held.masternode,
      held.height⟩
    rintro ⟨hash', lock, drops, found, -, freed⟩
    obtain ⟨other, inside, slot⟩ := List.mem_map.mp freed
    rw [← votesOf_lock found] at inside
    obtain ⟨rfl, -⟩ := kept.same_of_slot before inside slot.symm
    exact alive drops
  · intro slot vote found passed known
    obtain ⟨stored, kept'⟩ := (slots slot vote).mp found
    obtain ⟨counted, member, masternode, height⟩ := kept.counted slot vote stored passed known
    refine ⟨counted, mem_votesOf_clean.mpr ⟨member, fun drops => ?_⟩, masternode, height⟩
    obtain ⟨-, lock, present, -⟩ := id drops
    rw [votesOf_lock present] at member
    cases request : w.1.mapTxLockReq.contains vote.txHash with
    | false => exact known (height.symm.trans (requested _ lock drops present request _ member))
    | true =>
      refine kept' ⟨vote.txHash, lock, drops, present, request, ?_⟩
      have slot' : counted.getHash = slot := by
        have ofOne : counted.txHash = vote.txHash :=
          kept.own _ counted (by rw [votesOf_lock present]; exact member)
        rw [getHash_congr masternode ofOne, kept.slots slot vote stored]
      exact slot' ▸ List.mem_map_of_mem member

end

end VotesKept

/-! ## Runs -/

/-- No own vote is stored beside its lock, and no lock that is dropped without a request takes votes
for a known height with it. -/
def VotesNotStranded (w : WatchedState) : SwiftTXAction → Prop
  | .ix env tx =>
    ixTakenUp env w.1 tx = true → acceptToMemoryPool env w.1 tx = true →
      ∀ ctx, ownVote env tx ((lockHeight env tx).getD 0) = some ctx →
        Counted w.1 ctx ∨ ctx.nBlockHeight = 0 ∧
          ∀ vote, w.1.mapTxLockVote.lookup ctx.getHash = some vote → ¬ Counted w.1 vote
  | .cleanTransactionLocksList env =>
    ∀ hash lock, Drops env w.1 hash → w.1.mapTxLocks.lookup hash = some lock →
      w.1.mapTxLockReq.contains hash = false →
        ∀ vote ∈ lock.vecConsensusVotes, vote.nBlockHeight = 0
  | _ => True

theorem votesKept_ix {w : WatchedState} (kept : VotesKept w) {env : SwiftTXEnv} {tx : CTransaction}
    (good : VotesNotStranded w (.ix env tx)) : VotesKept (watchStep w (.ix env tx)) := by
  have filed : LocksFiled (ix env w.1 tx).mapTxLocks := locksFiled_step kept.locks (.ix env tx)
  unfold watchStep swiftTXStep failedSlots
  dsimp only
  cases takenUp : ixTakenUp env w.1 tx with
  | false =>
    have same : ix env w.1 tx = w.1 := by rw [ix, takenUp, if_neg Bool.false_ne_true]
    rw [same, Bool.false_and, if_neg Bool.false_ne_true]
    exact kept
  | true =>
    cases accepted : acceptToMemoryPool env w.1 tx with
    | false =>
      have rejects : ix env w.1 tx = ixRejected env (createNewLock env w.1 tx).1 tx := by
        simp only [ix, takenUp, acceptToMemoryPool_createNewLock, accepted,
          Bool.false_eq_true, ↓reduceIte]
      rw [Bool.and_false, if_neg Bool.false_ne_true]
      refine kept.of_same filed (fun hash => ?_) ?_
      · rw [rejects, votesOf_ixRejected, votesOf_createNewLock]
      · rw [rejects, ixRejected_mapTxLockVote, createNewLock_mapTxLockVote]
    | true =>
      have accepts : ix env w.1 tx =
          ixAccepted env (createNewLock env w.1 tx).1 tx ((lockHeight env tx).getD 0) := by
        simp only [ix, takenUp, acceptToMemoryPool_createNewLock, accepted,
          ↓reduceIte, createNewLock_height]
      have votes : ∀ hash, votesOf (ix env w.1 tx) hash = votesOf w.1 hash := by
        intro hash
        have same : (ix env w.1 tx).mapTxLocks = (createNewLock env w.1 tx).1.mapTxLocks := by
          rw [accepts]
          simp [ixAccepted]
        rw [votesOf_congr same, votesOf_createNewLock]
      have slots := congrArg SwiftTXState.mapTxLockVote accepts
      rw [ixAccepted_mapTxLockVote, createNewLock_mapTxLockVote] at slots
      rw [Bool.and_true, if_pos rfl]
      cases own : ownVote env tx ((lockHeight env tx).getD 0) with
      | none => exact kept.of_same filed votes (by rw [slots, own])
      | some ctx =>
        exact kept.storeOwn (good takenUp accepted ctx own) filed votes (by rw [slots, own])

theorem votesKept_txlvote {w : WatchedState} (kept : VotesKept w) (env : SwiftTXEnv)
    (ctx : CConsensusVote) : VotesKept (watchStep w (.txlvote env ctx)) := by
  have filed : LocksFiled (txlvote env w.1 ctx).mapTxLocks :=
    locksFiled_step kept.locks (.txlvote env ctx)
  unfold watchStep swiftTXStep failedSlots
  dsimp only
  cases handled : env.handlesMessages with
  | false =>
    have same : txlvote env w.1 ctx = w.1 := by simp [txlvote, handled]
    rw [same, Bool.false_and, if_neg Bool.false_ne_true]
    exact kept
  | true =>
    cases taken : w.1.mapTxLockVote.contains ctx.getHash with
    | true =>
      have same : txlvote env w.1 ctx = w.1 := by simp [txlvote, taken]
      rw [same, Bool.not_true, Bool.and_false, if_neg Bool.false_ne_true]
      exact kept
    | false =>
      have fresh := (AssocMap.contains_eq_false_iff _ _).mp taken
      rw [Bool.not_false, Bool.and_true, if_pos rfl]
      cases valid : voteValid env ctx with
      | false =>
        obtain ⟨effects, processed⟩ := processConsensusVote_of_invalid valid
          { w.1 with mapTxLockVote := w.1.mapTxLockVote.insert ctx.getHash ctx }
        refine kept.storeFailed fresh ?_ ?_ <;> simp [txlvote, handled, taken, processed]
      | true =>
        have stored : txlvote env w.1 ctx = relayVote env (countVote env
            { w.1 with mapTxLockVote := w.1.mapTxLockVote.insert ctx.getHash ctx } ctx) ctx := by
          simp [txlvote, handled, taken, processConsensusVote_of_valid valid]
        refine kept.storeValid fresh filed (fun hash => ?_) ?_
        · rw [stored, votesOf_congr (relayVote_mapTxLocks _ _ _), votesOf_countVote]
          rfl
        · rw [stored, relayVote_mapTxLockVote, countVote_mapTxLockVote]

theorem votesKept_step {w : WatchedState} (kept : VotesKept w) (a : SwiftTXAction)
    (good : VotesNotStranded w a) : VotesKept (watchStep w a) := by
  cases a with
  | ix env tx => exact votesKept_ix kept good
  | txlvote env ctx => exact votesKept_txlvote kept env ctx
  | relayTransactionLockReq env tx =>
    refine kept.of_same (locksFiled_step kept.locks (.relayTransactionLockReq env tx))
      (fun hash => ?_) ?_
    · show votesOf ((createNewLock env _ tx).1.emit _) hash = _
      rw [votesOf_congr (emit_mapTxLocks _ _), votesOf_createNewLock]
      rfl
    · show (createNewLock env _ tx).1.mapTxLockVote = _
      rw [createNewLock_mapTxLockVote]
  | cleanTransactionLocksList env => exact kept.clean good
  | checkBlock env block =>
    refine kept.of_same (locksFiled_step kept.locks (.checkBlock env block)) (fun hash => ?_)
      (checkBlock_mapTxLockVote env w.1 block)
    refine votesOf_congr ?_ hash
    show (checkBlock env w.1 block).mapTxLocks = _
    unfold checkBlock
    split <;> rfl

/-- In a run that strands no vote, every lock with a known height counts the masternodes whose
votes the node holds, behind every part of the run. -/
theorem countSignatures_eq_voters {actions : List SwiftTXAction}
    (good : AllSteps watchStep VotesNotStranded (SwiftTXState.init, fun _ => false) actions)
    (part : List SwiftTXAction) (initial : part <+: actions) :
    CountsHeld (run watchStep (SwiftTXState.init, fun _ => false) part) := by
  have kept := (good.restrict initial).invariant (fun w a kept good => votesKept_step kept a good)
    VotesKept.init
  exact kept.countsHeld

def votesAround : List SwiftTXAction :=
  [.txlvote (sampleEnv true) (sampleVote 1), .txlvote (sampleEnv true) (sampleVote 2),
    .ix (sampleEnv true) sampleRequest, .txlvote (sampleEnv true) (sampleVote 3)]

theorem votesAround_countsHeld :
    CountsHeld (run watchStep (SwiftTXState.init, fun _ => false) votesAround) := by
  have silent : ownVote (sampleEnv true) sampleRequest
      ((lockHeight (sampleEnv true) sampleRequest).getD 0) = none := rfl
  have good : AllSteps watchStep VotesNotStranded (SwiftTXState.init, fun _ => false)
      votesAround := by
    refine ⟨trivial, trivial, fun _ _ ctx own => ?_, trivial, trivial⟩
    rw [silent] at own
    cases own
  exact countSignatures_eq_voters good votesAround (List.prefix_refl _)

/-! ## Stranded votes -/

/-- The node of `sampleEnv` is masternode 1 itself. -/
def votingEnv : SwiftTXEnv :=
  { sampleEnv true with activeMasternode := some ⟨⟨50, 1⟩, [], 0⟩, sign := fun _ => some [] }

/-- A vote comes in, its lock is dropped an hour later, and then the request comes in. -/
def voteOutlivesLock : List SwiftTXAction :=
  [.txlvote (sampleEnv true) (sampleVote 1), .cleanTransactionLocksList hourLater,
    .ix hourLater sampleRequest]

/-- The node's own vote is in no lock, and neither is a vote whose first lock expired. -/
theorem stranded_votes_uncounted :
    ¬ CountsHeld (run watchStep (SwiftTXState.init, fun _ => false)
        [.ix votingEnv sampleRequest]) ∧
      ¬ CountsHeld (run watchStep (SwiftTXState.init, fun _ => false) voteOutlivesLock) := by
  constructor
  · intro counts
    have none := counts 1 ⟨103, 1, [], 4600, 1300⟩ (by decide +kernel) (by decide)
    revert none
    decide +kernel
  intro counts
  have none := counts 1 ⟨103, 1, [], 13600, 10300⟩ (by decide +kernel) (by decide)
  revert none
  decide +kernel

end Esbcoin.SwiftTX
