import Esbcoin.Lib.StepRun
import Esbcoin.SwiftTX

/-!
# Locked inputs and consensus

Which steps write `mapLockedInputs`, and with how many votes behind the lock. Every step is
described by what it adds: a vote is only ever added to the lock it is for, after it was checked
(`votesOf_step`), and an outpoint is only ever locked by a complete lock or by a rejected request
(`lookup_lockedInputs_step`).
-/

namespace Esbcoin.SwiftTX

open StepRun

/-- The votes of a lock. -/
def votesOf (s : SwiftTXState) (hash : UInt256) : List CConsensusVote :=
  match s.mapTxLocks.lookup hash with
  | some lock => lock.vecConsensusVotes
  | none => []

/-- The transaction has a lock with six votes. -/
def HasCompleteLock (s : SwiftTXState) (hash : UInt256) : Prop :=
  ∃ lock, s.mapTxLocks.lookup hash = some lock ∧ SWIFTTX_SIGNATURES_REQUIRED ≤ lock.countSignatures

/-! ## What the parts of a step leave unchanged -/

section Frame

variable (env : SwiftTXEnv) (s : SwiftTXState)

@[simp] theorem emit_mapLockedInputs (effect : SwiftTXEffect) :
    (s.emit effect).mapLockedInputs = s.mapLockedInputs := rfl

@[simp] theorem emit_mapTxLocks (effect : SwiftTXEffect) :
    (s.emit effect).mapTxLocks = s.mapTxLocks := rfl

@[simp] theorem createNewLock_mapLockedInputs (tx : CTransaction) :
    (createNewLock env s tx).1.mapLockedInputs = s.mapLockedInputs := by
  unfold createNewLock
  split
  · rfl
  · split <;> rfl

@[simp] theorem doConsensusVote_mapLockedInputs (tx : CTransaction) (nBlockHeight : Int) :
    (doConsensusVote env s tx nBlockHeight).mapLockedInputs = s.mapLockedInputs := by
  unfold doConsensusVote
  split <;> rfl

@[simp] theorem doConsensusVote_mapTxLocks (tx : CTransaction) (nBlockHeight : Int) :
    (doConsensusVote env s tx nBlockHeight).mapTxLocks = s.mapTxLocks := by
  unfold doConsensusVote
  split <;> rfl

@[simp] theorem checkForConflictingLocks_mapLockedInputs (tx : CTransaction) :
    (checkForConflictingLocks env s tx).1.mapLockedInputs = s.mapLockedInputs := by
  unfold checkForConflictingLocks
  split <;> rfl

@[simp] theorem relayVote_mapLockedInputs (ctx : CConsensusVote) :
    (relayVote env s ctx).mapLockedInputs = s.mapLockedInputs := by
  simp only [relayVote]
  split
  · rfl
  · split <;> rfl

@[simp] theorem relayVote_mapTxLocks (ctx : CConsensusVote) :
    (relayVote env s ctx).mapTxLocks = s.mapTxLocks := by
  simp only [relayVote]
  split
  · rfl
  · split <;> rfl

theorem checkForConflictingLocks_of_false (tx : CTransaction)
    (h : (checkForConflictingLocks env s tx).2 = false) :
    (checkForConflictingLocks env s tx).1 = s := by
  unfold checkForConflictingLocks at h ⊢
  split
  · rename_i found
    rw [found] at h
    cases h
  · rfl

end Frame

/-! ## Votes -/

theorem votesOf_congr {s t : SwiftTXState} (h : t.mapTxLocks = s.mapTxLocks) (hash : UInt256) :
    votesOf t hash = votesOf s hash := by
  unfold votesOf
  rw [h]

section

variable (env : SwiftTXEnv)
include env

@[simp] theorem votesOf_createNewLock (s : SwiftTXState) (tx : CTransaction) (hash : UInt256) :
    votesOf (createNewLock env s tx).1 hash = votesOf s hash := by
  unfold createNewLock
  split
  · rfl
  split
  · rename_i _ absent
    simp only [votesOf, AssocMap.lookup_insert_eq]
    by_cases equal : hash = tx.getHash
    · subst equal; simp [absent]
    · simp [equal]
  rename_i _ lock present
  simp only [votesOf, AssocMap.lookup_insert_eq]
  by_cases equal : hash = tx.getHash
  · subst equal; simp [present]
  · simp [equal]

@[simp] theorem votesOf_expireLock (s : SwiftTXState) (h hash : UInt256) :
    votesOf (expireLock env s h) hash = votesOf s hash := by
  simp only [votesOf, expireLock, AssocMap.lookup_modify]
  by_cases equal : hash = h
  · subst equal
    cases s.mapTxLocks.lookup hash <;> simp
  · simp [equal]

@[simp] theorem votesOf_checkForConflictingLocks (s : SwiftTXState) (tx : CTransaction)
    (hash : UInt256) :
    votesOf (checkForConflictingLocks env s tx).1 hash = votesOf s hash := by
  unfold checkForConflictingLocks
  split <;> simp

@[simp] theorem votesOf_lockComplete (s : SwiftTXState) (txHash hash : UInt256) :
    votesOf (lockComplete env s txHash) hash = votesOf s hash := by
  simp only [lockComplete]
  split
  · rw [votesOf_checkForConflictingLocks]
    rfl
  split
  · rw [votesOf_congr (emit_mapTxLocks _ _)]
    exact votesOf_checkForConflictingLocks _ _ _ _
  · exact votesOf_checkForConflictingLocks _ _ _ _

theorem votesOf_ixRejected (s : SwiftTXState) (tx : CTransaction) (hash : UInt256) :
    votesOf (ixRejected env s tx) hash = votesOf s hash := by
  simp only [ixRejected]
  split
  · rfl
  split
  · split
    · rw [votesOf_checkForConflictingLocks]; rfl
    · exact votesOf_checkForConflictingLocks _ _ _ _
  · rfl

/-- A counted vote is added to the lock of the transaction it is for, and to no other. -/
theorem votesOf_countVote (s : SwiftTXState) (ctx : CConsensusVote) (hash : UInt256) :
    votesOf (countVote env s ctx) hash =
      if hash = ctx.txHash then votesOf s hash ++ [ctx] else votesOf s hash := by
  let t : SwiftTXState :=
    { s with mapTxLocks := s.mapTxLocks.insert ctx.txHash (lockWithVote env s ctx) }
  have counted : votesOf (countVote env s ctx) hash = votesOf t hash := by
    simp only [countVote]
    split
    · exact votesOf_lockComplete _ _ _ _
    · rfl
  rw [counted]
  simp only [t, votesOf, lockWithVote, AssocMap.lookup_insert_eq]
  by_cases equal : hash = ctx.txHash
  · subst equal
    cases s.mapTxLocks.lookup ctx.txHash <;> simp [CTransactionLock.addSignature, voteLock]
  · simp [equal]

end

variable {ctx vote : CConsensusVote} {hash : UInt256} {tx : CTransaction} {o : COutPoint}

theorem processConsensusVote_of_valid {env : SwiftTXEnv} (h : voteValid env ctx = true)
    (s : SwiftTXState) : processConsensusVote env s ctx = (countVote env s ctx, true) := by
  simp only [voteValid, Bool.and_eq_true, Bool.not_eq_eq_eq_not, Bool.not_true,
    decide_eq_false_iff_not] at h
  simp [processConsensusVote, h.1.1, h.1.2, h.2]

/-- A vote that fails a check changes no table. -/
theorem processConsensusVote_of_invalid {env : SwiftTXEnv} (h : voteValid env ctx = false)
    (s : SwiftTXState) :
    ∃ effects, processConsensusVote env s ctx = ({ s with effects := effects }, false) := by
  unfold processConsensusVote
  simp only
  split
  · exact ⟨_, rfl⟩
  split
  · exact ⟨s.effects, rfl⟩
  · split
    · exact ⟨_, rfl⟩
    · simp_all [voteValid]

theorem votesOf_cleanLock (env : SwiftTXEnv) (s : SwiftTXState) (key : UInt256)
    (lock : CTransactionLock) (h : vote ∈ votesOf (cleanLock env s key lock) hash) :
    vote ∈ votesOf s hash := by
  simp only [cleanLock] at h
  split at h
  · have same : ∀ t : SwiftTXState, t.mapTxLocks = s.mapTxLocks →
        vote ∈ votesOf { t with mapTxLocks := t.mapTxLocks.erase key } hash →
        vote ∈ votesOf s hash := by
      intro t ht member
      simp only [votesOf, AssocMap.lookup_erase_eq, ht] at member ⊢
      by_cases equal : hash = key
      · simp [equal] at member
      · simpa [equal] using member
    exact same _ (by split <;> rfl) h
  · exact h

theorem votesOf_clean (env : SwiftTXEnv) (s : SwiftTXState)
    (h : vote ∈ votesOf (cleanTransactionLocksList env s) hash) : vote ∈ votesOf s hash := by
  unfold cleanTransactionLocksList at h
  split at h
  · exact h
  have run : ∀ (entries : List (Sigma fun _ : UInt256 => CTransactionLock))
      (t : SwiftTXState),
      vote ∈ votesOf (entries.foldl (fun s entry => cleanLock env s entry.1 entry.2) t) hash →
      vote ∈ votesOf t hash := by
    intro entries
    induction entries with
    | nil => intro t member; exact member
    | cons entry entries ih => intro t member; exact votesOf_cleanLock _ _ _ _ (ih _ member)
  exact run _ _ h

/-- The votes behind a lock after a step: those before it, and the vote delivered in it if
it passed the checks. -/
theorem votesOf_step (s : SwiftTXState) (a : SwiftTXAction)
    (h : vote ∈ votesOf (swiftTXStep s a) hash) :
    vote ∈ votesOf s hash ∨
      ∃ env, a = .txlvote env vote ∧ voteValid env vote = true ∧ vote.txHash = hash := by
  cases a with
  | ix env tx =>
    left
    simp only [swiftTXStep, ix] at h
    split at h
    · split at h
      · have same := votesOf_congr (s := (createNewLock env s tx).1)
          (t := ixAccepted env (createNewLock env s tx).1 tx (createNewLock env s tx).2)
          (by simp [ixAccepted]) hash
        rwa [same, votesOf_createNewLock] at h
      · rwa [votesOf_ixRejected, votesOf_createNewLock] at h
    · exact h
  | txlvote env ctx =>
    simp only [swiftTXStep, txlvote] at h
    split at h
    · exact .inl h
    split at h
    · exact .inl h
    cases valid : voteValid env ctx with
    | true =>
      rw [processConsensusVote_of_valid valid] at h
      simp only [↓reduceIte] at h
      rw [votesOf_congr (relayVote_mapTxLocks _ _ _), votesOf_countVote] at h
      split at h
      · rename_i equal
        rcases List.mem_append.mp h with old | new
        · exact .inl old
        · obtain rfl := List.mem_singleton.mp new
          exact .inr ⟨env, rfl, valid, equal.symm⟩
      · exact .inl h
    | false =>
      obtain ⟨effects, processed⟩ := processConsensusVote_of_invalid valid
        { s with mapTxLockVote := s.mapTxLockVote.insert ctx.getHash ctx }
      rw [processed] at h
      exact .inl h
  | relayTransactionLockReq env tx =>
    left
    simp only [swiftTXStep, relayTransactionLockReq] at h
    rw [votesOf_congr (emit_mapTxLocks _ _), votesOf_createNewLock] at h
    exact h
  | cleanTransactionLocksList env => exact .inl (votesOf_clean env s h)
  | checkBlock env block =>
    left
    simp only [swiftTXStep, checkBlock] at h
    split at h <;> exact h

/-! ## Complete locks -/

theorem hasCompleteLock_of_locks_eq {s t : SwiftTXState} (same : t.mapTxLocks = s.mapTxLocks)
    (h : HasCompleteLock s hash) : HasCompleteLock t hash := by
  unfold HasCompleteLock
  rw [same]
  exact h

theorem hasCompleteLock_expireLock {env : SwiftTXEnv} {s : SwiftTXState}
    (h : HasCompleteLock s hash) (other : UInt256) :
    HasCompleteLock (expireLock env s other) hash := by
  obtain ⟨lock, present, complete⟩ := h
  by_cases equal : hash = other
  · refine ⟨{ lock with nExpiration := env.time }, ?_, complete⟩
    subst equal
    simp [expireLock, AssocMap.lookup_modify, present]
  · exact ⟨lock, by simp [expireLock, AssocMap.lookup_modify, equal, present], complete⟩

theorem hasCompleteLock_checkForConflictingLocks {env : SwiftTXEnv} {s : SwiftTXState}
    (h : HasCompleteLock s hash) (tx : CTransaction) :
    HasCompleteLock (checkForConflictingLocks env s tx).1 hash := by
  unfold checkForConflictingLocks
  split
  · exact hasCompleteLock_expireLock (hasCompleteLock_expireLock h _) _
  · exact h

theorem hasCompleteLock_ixRejected {env : SwiftTXEnv} {s : SwiftTXState}
    (h : HasCompleteLock s hash) (tx : CTransaction) :
    HasCompleteLock (ixRejected env s tx) hash := by
  have kept : ∀ t : SwiftTXState, t.mapTxLocks = s.mapTxLocks →
      HasCompleteLock (checkForConflictingLocks env t tx).1 hash := fun t same =>
    hasCompleteLock_checkForConflictingLocks (hasCompleteLock_of_locks_eq same h) tx
  simp only [ixRejected]
  split
  · exact h
  split
  · split
    · exact kept _ rfl
    · exact kept _ rfl
  · exact h

/-- The lock of `tx` has its signatures once the request has set its block height. -/
def CompleteAtRequest (env : SwiftTXEnv) (s : SwiftTXState) (tx : CTransaction) : Prop :=
  ∃ lock, s.mapTxLocks.lookup tx.getHash = some lock ∧
    SWIFTTX_SIGNATURES_REQUIRED ≤ CTransactionLock.countSignatures
      { lock with nBlockHeight := (lockHeight env tx).getD lock.nBlockHeight }

theorem hasCompleteLock_createNewLock {env : SwiftTXEnv} {s : SwiftTXState}
    (h : CompleteAtRequest env s tx) : HasCompleteLock (createNewLock env s tx).1 tx.getHash := by
  obtain ⟨lock, present, complete⟩ := h
  unfold createNewLock
  cases height : lockHeight env tx with
  | none =>
    rw [height] at complete
    exact ⟨lock, present, complete⟩
  | some nBlockHeight =>
    rw [height] at complete
    simp only [present]
    exact ⟨{ lock with nBlockHeight }, by simp, complete⟩

/-! ## Locked inputs -/

theorem acceptToMemoryPool_createNewLock (env : SwiftTXEnv) (s : SwiftTXState)
    (tx : CTransaction) :
    acceptToMemoryPool env (createNewLock env s tx).1 tx = acceptToMemoryPool env s tx := by
  simp [acceptToMemoryPool, acceptLockScan]

theorem lookup_lockedInputs_lockComplete {env : SwiftTXEnv} {s : SwiftTXState} {txHash : UInt256}
    (h : (lockComplete env s txHash).mapLockedInputs.lookup o = some hash) :
    s.mapLockedInputs.lookup o = some hash ∨
      hash = txHash ∧ (lockComplete env s txHash).mapTxLocks = s.mapTxLocks := by
  simp only [lockComplete] at h ⊢
  split at h
  · simp only [checkForConflictingLocks_mapLockedInputs] at h
    exact .inl h
  rename_i noConflict
  rw [Bool.not_eq_true] at noConflict
  rw [checkForConflictingLocks_of_false _ _ _ noConflict] at h ⊢
  have found : (s.mapLockedInputs.insertNewAll
      ((s.mapTxLockReq.lookup txHash).getD CTransaction.empty).prevouts txHash).lookup o
        = some hash := by
    split at h <;> exact h
  rw [if_neg (by simpa using noConflict)]
  rcases AssocMap.of_lookup_insertNewAll found with old | ⟨-, -, new⟩
  · exact .inl old
  · exact .inr ⟨new, by split <;> rfl⟩

theorem lookup_lockedInputs_countVote {env : SwiftTXEnv} {s : SwiftTXState}
    (h : (countVote env s ctx).mapLockedInputs.lookup o = some hash) :
    s.mapLockedInputs.lookup o = some hash ∨ HasCompleteLock (countVote env s ctx) hash := by
  simp only [countVote] at h ⊢
  split at h
  · rename_i complete
    rw [if_pos complete]
    rcases lookup_lockedInputs_lockComplete h with old | ⟨rfl, same⟩
    · exact .inl old
    · right
      refine hasCompleteLock_of_locks_eq same ⟨lockWithVote env s ctx, by simp, ?_⟩
      simpa [CTransactionLock.isComplete] using complete
  · exact .inl h

theorem lookup_lockedInputs_ixRejected {env : SwiftTXEnv} {s : SwiftTXState}
    (h : (ixRejected env s tx).mapLockedInputs.lookup o = some hash) :
    s.mapLockedInputs.lookup o = some hash ∨
      s.mapLockedInputs.lookup o = none ∧ o ∈ tx.prevouts ∧ hash = tx.getHash := by
  have found : (s.mapLockedInputs.insertNewAll tx.prevouts tx.getHash).lookup o
      = some hash := by
    simp only [ixRejected] at h
    split at h
    · exact h
    split at h
    · split at h
      · simpa using h
      · simpa using h
    · exact h
  exact AssocMap.of_lookup_insertNewAll found

theorem lookup_lockedInputs_clean {env : SwiftTXEnv} {s : SwiftTXState}
    (h : (cleanTransactionLocksList env s).mapLockedInputs.lookup o = some hash) :
    s.mapLockedInputs.lookup o = some hash := by
  have round : ∀ (t : SwiftTXState) (key : UInt256) (lock : CTransactionLock),
      (cleanLock env t key lock).mapLockedInputs.lookup o = some hash →
      t.mapLockedInputs.lookup o = some hash := by
    intro t key lock found
    simp only [cleanLock] at found
    split at found
    · cases request : t.mapTxLockReq.lookup lock.txHash with
      | none => simpa [request] using found
      | some tx =>
        simp only [request, AssocMap.lookup_eraseAll] at found
        split at found
        · cases found
        · exact found
    · exact found
  have run : ∀ (entries : List (Sigma fun _ : UInt256 => CTransactionLock))
      (t : SwiftTXState),
      (entries.foldl (fun s entry => cleanLock env s entry.1 entry.2) t).mapLockedInputs.lookup
        o = some hash → t.mapLockedInputs.lookup o = some hash := by
    intro entries
    induction entries with
    | nil => intro t found; exact found
    | cons entry entries ih => intro t found; exact round _ _ _ (ih _ found)
  unfold cleanTransactionLocksList at h
  split at h
  · exact h
  · exact run _ _ h

/-- The outpoints locked after a step: those before it, those of a lock that is complete,
and those that a request the mempool rejected found free. -/
theorem lookup_lockedInputs_step {s : SwiftTXState} {a : SwiftTXAction}
    (h : (swiftTXStep s a).mapLockedInputs.lookup o = some hash) :
    s.mapLockedInputs.lookup o = some hash ∨ HasCompleteLock (swiftTXStep s a) hash ∨
      ∃ env tx, a = .ix env tx ∧ ixTakenUp env s tx = true ∧
        acceptToMemoryPool env s tx = false ∧ s.mapLockedInputs.lookup o = none ∧
        o ∈ tx.prevouts ∧ hash = tx.getHash := by
  cases a with
  | ix env tx =>
    simp only [swiftTXStep, ix] at h
    split at h
    · rename_i takenUp
      split at h
      · simp only [ixAccepted, doConsensusVote_mapLockedInputs, emit_mapLockedInputs,
          createNewLock_mapLockedInputs] at h
        exact .inl h
      rename_i rejected
      rw [acceptToMemoryPool_createNewLock, Bool.not_eq_true] at rejected
      rcases lookup_lockedInputs_ixRejected h with old | ⟨free, member, equal⟩
      · exact .inl (by simpa using old)
      · exact .inr (.inr ⟨env, tx, rfl, takenUp, rejected, by simpa using free, member, equal⟩)
    · exact .inl h
  | txlvote env ctx =>
    simp only [swiftTXStep, txlvote] at h ⊢
    split at h
    · exact .inl h
    rename_i handled
    split at h
    · exact .inl h
    rename_i fresh
    rw [if_neg handled, if_neg fresh]
    cases valid : voteValid env ctx with
    | true =>
      rw [processConsensusVote_of_valid valid] at h ⊢
      simp only [↓reduceIte, relayVote_mapLockedInputs] at h ⊢
      rcases lookup_lockedInputs_countVote h with old | complete
      · exact .inl old
      · exact .inr (.inl (hasCompleteLock_of_locks_eq (relayVote_mapTxLocks _ _ _) complete))
    | false =>
      obtain ⟨effects, processed⟩ := processConsensusVote_of_invalid valid
        { s with mapTxLockVote := s.mapTxLockVote.insert ctx.getHash ctx }
      rw [processed] at h
      exact .inl h
  | relayTransactionLockReq env tx =>
    simp only [swiftTXStep, relayTransactionLockReq, emit_mapLockedInputs,
      createNewLock_mapLockedInputs] at h
    exact .inl h
  | cleanTransactionLocksList env => exact .inl (lookup_lockedInputs_clean h)
  | checkBlock env block =>
    left
    simp only [swiftTXStep, checkBlock] at h
    split at h <;> exact h

/-! ## Runs -/

/-- Some state of the run held a lock of `hash` with its signatures, every one of them
delivered for `hash` and valid when it was. -/
def ReachedConsensus (actions : List SwiftTXAction) (hash : UInt256) : Prop :=
  ∃ first, first <+: actions ∧ ∃ lock,
    (run swiftTXStep SwiftTXState.init first).mapTxLocks.lookup hash = some lock ∧
    SWIFTTX_SIGNATURES_REQUIRED ≤ lock.countSignatures ∧
    ∀ vote ∈ lock.vecConsensusVotes, vote.txHash = hash ∧
      ∃ env, SwiftTXAction.txlvote env vote ∈ first ∧ voteValid env vote = true

theorem ReachedConsensus.extend {first : List SwiftTXAction} (h : ReachedConsensus first hash)
    (rest : List SwiftTXAction) : ReachedConsensus (first ++ rest) hash := by
  obtain ⟨earlier, isPrefix, lock, found⟩ := h
  exact ⟨earlier, isPrefix.trans (List.prefix_append first rest), lock, found⟩

/-- Every vote behind a lock was delivered for its transaction and passed the checks. -/
theorem votesOf_run (actions : List SwiftTXAction)
    (h : vote ∈ votesOf (run swiftTXStep SwiftTXState.init actions) hash) :
    vote.txHash = hash ∧
      ∃ env, SwiftTXAction.txlvote env vote ∈ actions ∧ voteValid env vote = true := by
  induction actions using List.reverseRecOn with
  | nil => cases h
  | append_singleton first a ih =>
    rw [run_append] at h
    rcases votesOf_step _ a h with old | ⟨env, rfl, valid, forHash⟩
    · obtain ⟨forHash, env, delivered, valid⟩ := ih old
      exact ⟨forHash, env, List.mem_append_left _ delivered, valid⟩
    · exact ⟨forHash, env, by simp, valid⟩

theorem reachedConsensus_of_hasCompleteLock {actions : List SwiftTXAction}
    (h : HasCompleteLock (run swiftTXStep SwiftTXState.init actions) hash) :
    ReachedConsensus actions hash := by
  obtain ⟨lock, present, complete⟩ := h
  refine ⟨actions, List.prefix_refl _, lock, present, complete, fun vote member => ?_⟩
  exact votesOf_run actions (by simpa [votesOf, present] using member)

/-- The step does not lock an input for a rejected request without consensus: either its
lock has the signatures, or its inputs are all locked already. -/
def RejectsWithConsensus (s : SwiftTXState) : SwiftTXAction → Prop
  | .ix env tx =>
      ixTakenUp env s tx = true → acceptToMemoryPool env s tx = false →
        (∀ o ∈ tx.prevouts, s.mapLockedInputs.contains o = true) ∨ CompleteAtRequest env s tx
  | _ => True

/-- Locked inputs, and the rejections they lead to, have consensus behind them. -/
structure LocksHaveConsensus (actions : List SwiftTXAction) (s : SwiftTXState) : Prop where
  lockedInputs : ∀ o hash, s.mapLockedInputs.lookup o = some hash → ReachedConsensus actions hash
  accept : ∀ tx rejection, acceptLockScan s tx = some rejection →
    ∃ o ∈ tx.prevouts, ∃ hash ≠ tx.getHash,
      s.mapLockedInputs.lookup o = some hash ∧ ReachedConsensus actions hash
  checkBlock : ∀ env block rejection, checkBlockLockScan env s block = some rejection →
    ∃ tx ∈ block.vtx, tx.isCoinBase = false ∧ ∃ o ∈ tx.prevouts, ∃ hash ≠ tx.getHash,
      s.mapLockedInputs.lookup o = some hash ∧ ReachedConsensus actions hash

theorem findConflict_eq_some {s : SwiftTXState} (h : findConflict s.mapLockedInputs tx = some hash)
    : ∃ o ∈ tx.prevouts, s.mapLockedInputs.lookup o = some hash ∧ hash ≠ tx.getHash := by
  obtain ⟨txin, member, found⟩ := List.exists_of_findSome?_eq_some h
  refine ⟨txin.prevout, List.mem_map_of_mem member, ?_⟩
  split at found
  · rename_i locked present
    split at found
    · rename_i other
      obtain rfl := Option.some.inj found
      exact ⟨present, other⟩
    · cases found
  · cases found

/-- The two scans reject on the strength of `mapLockedInputs` alone. -/
theorem LocksHaveConsensus.of_lockedInputs {actions : List SwiftTXAction} {s : SwiftTXState}
    (h : ∀ o hash, s.mapLockedInputs.lookup o = some hash → ReachedConsensus actions hash) :
    LocksHaveConsensus actions s := by
  have scan : ∀ tx hash, findConflict s.mapLockedInputs tx = some hash →
      ∃ o ∈ tx.prevouts, ∃ hash ≠ tx.getHash,
        s.mapLockedInputs.lookup o = some hash ∧ ReachedConsensus actions hash := by
    intro tx hash found
    obtain ⟨o, member, locked, other⟩ := findConflict_eq_some found
    exact ⟨o, member, hash, other, locked, h o hash locked⟩
  refine ⟨h, ?_, ?_⟩
  · intro tx rejection rejected
    simp only [acceptLockScan, Option.map_eq_some_iff] at rejected
    obtain ⟨hash, found, -⟩ := rejected
    exact scan tx hash found
  intro env block rejection rejected
  simp only [checkBlockLockScan] at rejected
  split at rejected
  · obtain ⟨tx, member, found⟩ := List.exists_of_findSome?_eq_some rejected
    split at found
    · cases found
    · rename_i notCoinBase
      obtain ⟨hash, conflict, -⟩ := Option.map_eq_some_iff.mp found
      exact ⟨tx, member, by simpa using notCoinBase, scan tx hash conflict⟩
  · cases rejected

/-- In a run in which no rejected request locks an input without consensus, every state has
consensus behind its locked inputs. -/
theorem lockedInputs_haveConsensus {actions : List SwiftTXAction}
    (h : AllSteps swiftTXStep RejectsWithConsensus SwiftTXState.init actions) :
    ∀ first, first <+: actions →
      LocksHaveConsensus first (run swiftTXStep SwiftTXState.init first) := by
  intro first isPrefix
  apply LocksHaveConsensus.of_lockedInputs
  refine AllSteps.history
    (I := fun acts s => ∀ o hash, s.mapLockedInputs.lookup o = some hash →
      ReachedConsensus acts hash) ?_ ?_ (h.restrict isPrefix)
  · intro o hash locked
    cases locked
  intro acts a ih consent o hash locked
  rcases lookup_lockedInputs_step locked with old | complete |
    ⟨env, tx, rfl, takenUp, rejected, free, member, rfl⟩
  · exact (ih o hash old).extend [a]
  · exact reachedConsensus_of_hasCompleteLock (by rwa [run_append])
  rcases consent takenUp rejected with allLocked | complete
  · have present := allLocked o member
    simp [AssocMap.contains, free] at present
  apply reachedConsensus_of_hasCompleteLock
  rw [run_append, run_cons, run_nil]
  simp only [swiftTXStep, ix, if_pos takenUp]
  rw [acceptToMemoryPool_createNewLock, rejected]
  exact hasCompleteLock_ixRejected (hasCompleteLock_createNewLock complete) tx

/-- A node that knows the coins at height 100, at height 120, with every masternode in the
top ranks; the mempool gives the verdict `accepts`. -/
def sampleEnv (accepts : Bool) : SwiftTXEnv where
  time := 1000
  chainHeight := 120
  coinsHeight := fun _ => some 100
  getTransaction := fun _ => none
  mempoolAccepts := fun _ => accepts
  getMasternodeRank := fun _ _ => 1
  find := fun _ => some []
  verifyMessage := fun _ _ _ => true

def sampleRequest : CTransaction := ⟨1, 1, [⟨⟨7, 0⟩, [], 0⟩], [⟨5, [0x6a]⟩], 0, []⟩

/-- The vote of masternode `n` for `sampleRequest`. -/
def sampleVote (n : UInt32) : CConsensusVote := ⟨⟨⟨50, n⟩, [], 0⟩, 1, 103, []⟩

/-- A request accepted by the mempool, then six votes for it. -/
def sampleRun : List SwiftTXAction :=
  .ix (sampleEnv true) sampleRequest ::
    [1, 2, 3, 4, 5, 6].map (fun n => .txlvote (sampleEnv true) (sampleVote n))

theorem sampleRun_haveConsensus :
    (run swiftTXStep SwiftTXState.init sampleRun).mapLockedInputs.lookup ⟨7, 0⟩ = some 1 ∧
      LocksHaveConsensus sampleRun (run swiftTXStep SwiftTXState.init sampleRun) := by
  refine ⟨by decide +kernel, lockedInputs_haveConsensus ?_ _ (List.prefix_refl sampleRun)⟩
  refine ⟨fun _ rejected => ?_, trivial, trivial, trivial, trivial, trivial, trivial, trivial⟩
  have accepted : acceptToMemoryPool (sampleEnv true) SwiftTXState.init sampleRequest = true := by
    decide
  rw [accepted] at rejected
  cases rejected

/-- One `ix` that the mempool rejects locks its input although no vote was ever cast. -/
theorem rejectedRequest_locks_without_consensus :
    ¬ ∀ actions first, first <+: actions →
      LocksHaveConsensus first (run swiftTXStep SwiftTXState.init first) := by
  intro claim
  let actions : List SwiftTXAction := [.ix (sampleEnv false) sampleRequest]
  have locked : (run swiftTXStep SwiftTXState.init actions).mapLockedInputs.lookup ⟨7, 0⟩
      = some 1 := by decide +kernel
  obtain ⟨first, isPrefix, lock, present, complete, -⟩ :=
    (claim actions actions (List.prefix_refl _)).lockedInputs _ _ locked
  have votes : lock.vecConsensusVotes = [] := by
    have none : ∀ vote, vote ∉ lock.vecConsensusVotes := by
      intro vote member
      have counted : vote ∈ votesOf (run swiftTXStep SwiftTXState.init first) 1 := by
        unfold votesOf
        rw [present]
        exact member
      obtain ⟨-, env, delivered, -⟩ := votesOf_run first counted
      have among := isPrefix.subset delivered
      simp [actions] at among
    exact List.eq_nil_iff_forall_not_mem.mpr none
  simp only [CTransactionLock.countSignatures, votes, SWIFTTX_SIGNATURES_REQUIRED] at complete
  split at complete <;> simp at complete

end Esbcoin.SwiftTX
