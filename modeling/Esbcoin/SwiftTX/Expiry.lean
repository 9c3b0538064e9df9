import Esbcoin.SwiftTX.Votes

/-!
# Locks that expire

`CleanTransactionLocksList` drops the locks past their hour and, with each, what the request in
`mapTxLockReq` and the votes of the lock lead to.
-/

namespace Esbcoin.SwiftTX

open StepRun

/-! ## Every lock is filed under its transaction -/

/-- Every lock is filed under its transaction. -/
def LocksFiled (locks : AssocMap UInt256 CTransactionLock) : Prop :=
  ∀ key lock, locks.lookup key = some lock → lock.txHash = key

section Filed

variable {env : SwiftTXEnv} {s : SwiftTXState} {locks : AssocMap UInt256 CTransactionLock}

theorem LocksFiled.insert (h : LocksFiled locks) {key : UInt256} {lock : CTransactionLock}
    (own : lock.txHash = key) : LocksFiled (locks.insert key lock) := by
  intro key' lock' found
  rw [AssocMap.lookup_insert_eq] at found
  split at found
  · rename_i equal
    obtain rfl := Option.some.inj found
    rw [equal, own]
  · exact h key' lock' found

theorem LocksFiled.modify (h : LocksFiled locks) {change : CTransactionLock → CTransactionLock}
    (same : ∀ lock, (change lock).txHash = lock.txHash) (key : UInt256) :
    LocksFiled (locks.modify key change) := by
  intro key' lock' found
  rw [AssocMap.lookup_modify] at found
  split at found
  · rename_i equal
    obtain ⟨lock, before, rfl⟩ := Option.map_eq_some_iff.mp found
    rw [same, equal]
    exact h key lock before
  · exact h key' lock' found

theorem LocksFiled.erase (h : LocksFiled locks) (key : UInt256) : LocksFiled (locks.erase key) := by
  intro key' lock' found
  rw [AssocMap.lookup_erase_eq] at found
  split at found
  · cases found
  · exact h key' lock' found

section

variable (h : LocksFiled s.mapTxLocks)
include h

theorem locksFiled_createNewLock (tx : CTransaction) :
    LocksFiled (createNewLock env s tx).1.mapTxLocks := by
  unfold createNewLock
  split
  · exact h
  split
  · exact h.insert rfl
  · rename_i lock present
    exact h.insert (h _ lock present)

theorem locksFiled_expireLock (hash : UInt256) :
    LocksFiled (expireLock env s hash).mapTxLocks := by
  refine h.modify ?_ hash
  exact fun _ => rfl

theorem locksFiled_checkForConflictingLocks (tx : CTransaction) :
    LocksFiled (checkForConflictingLocks env s tx).1.mapTxLocks := by
  unfold checkForConflictingLocks
  split
  · exact locksFiled_expireLock (locksFiled_expireLock h _) _
  · exact h

theorem locksFiled_lockComplete (txHash : UInt256) :
    LocksFiled (lockComplete env s txHash).mapTxLocks := by
  simp only [lockComplete]
  split
  · refine locksFiled_checkForConflictingLocks ?_ _
    exact h
  split
  · refine locksFiled_checkForConflictingLocks ?_ _
    exact h
  · refine locksFiled_checkForConflictingLocks ?_ _
    exact h

theorem locksFiled_countVote (ctx : CConsensusVote) :
    LocksFiled (countVote env s ctx).mapTxLocks := by
  have own : (lockWithVote env s ctx).txHash = ctx.txHash := by
    unfold lockWithVote
    cases present : s.mapTxLocks.lookup ctx.txHash with
    | none => rfl
    | some lock => exact h _ lock present
  simp only [countVote]
  split
  · exact locksFiled_lockComplete (h.insert own) _
  · exact h.insert own

theorem locksFiled_ixRejected (tx : CTransaction) :
    LocksFiled (ixRejected env s tx).mapTxLocks := by
  simp only [ixRejected]
  split
  · exact h
  split
  · split
    · refine locksFiled_checkForConflictingLocks ?_ tx
      exact h
    · refine locksFiled_checkForConflictingLocks ?_ tx
      exact h
  · exact h

end

theorem cleanLock_mapTxLocks (key : UInt256) (lock : CTransactionLock) :
    (cleanLock env s key lock).mapTxLocks =
      if env.time > lock.nExpiration then s.mapTxLocks.erase key else s.mapTxLocks := by
  unfold cleanLock
  split
  · simp only
    split <;> rfl
  · rfl

theorem locksFiled_clean (h : LocksFiled s.mapTxLocks) :
    LocksFiled (cleanTransactionLocksList env s).mapTxLocks := by
  have loop : ∀ (entries : List (Sigma fun _ : UInt256 => CTransactionLock)) (t : SwiftTXState),
      LocksFiled t.mapTxLocks →
      LocksFiled (entries.foldl (fun s entry => cleanLock env s entry.1 entry.2) t).mapTxLocks := by
    intro entries
    induction entries with
    | nil => exact fun t filed => filed
    | cons entry entries ih =>
      intro t filed
      refine ih _ ?_
      rw [cleanLock_mapTxLocks]
      split
      · exact filed.erase _
      · exact filed
  unfold cleanTransactionLocksList
  split
  · exact h
  · exact loop _ _ h

theorem locksFiled_step (h : LocksFiled s.mapTxLocks) (a : SwiftTXAction) :
    LocksFiled (swiftTXStep s a).mapTxLocks := by
  cases a with
  | ix env tx =>
    simp only [swiftTXStep, ix]
    split
    · split
      · simp only [ixAccepted, doConsensusVote_mapTxLocks, emit_mapTxLocks]
        exact locksFiled_createNewLock h tx
      · exact locksFiled_ixRejected (locksFiled_createNewLock h tx) tx
    · exact h
  | txlvote env ctx =>
    simp only [swiftTXStep, txlvote]
    split
    · exact h
    split
    · exact h
    cases valid : voteValid env ctx with
    | true =>
      rw [processConsensusVote_of_valid valid]
      simp only [↓reduceIte, relayVote_mapTxLocks]
      refine locksFiled_countVote ?_ ctx
      exact h
    | false =>
      obtain ⟨effects, processed⟩ := processConsensusVote_of_invalid valid
        { s with mapTxLockVote := s.mapTxLockVote.insert ctx.getHash ctx }
      rw [processed]
      exact h
  | relayTransactionLockReq env tx =>
    refine locksFiled_createNewLock ?_ tx
    exact h
  | cleanTransactionLocksList env => exact locksFiled_clean h
  | checkBlock env block =>
    simp only [swiftTXStep, checkBlock]
    split <;> exact h

theorem locksFiled_run (actions : List SwiftTXAction) :
    LocksFiled (run swiftTXStep SwiftTXState.init actions).mapTxLocks := by
  have every : AllSteps swiftTXStep (fun _ _ => True) SwiftTXState.init actions :=
    AllSteps.of_forall (fun _ _ _ => trivial) _
  refine every.invariant (I := fun s => LocksFiled s.mapTxLocks)
    (fun s a filed _ => locksFiled_step filed a) ?_
  intro key lock found
  cases found

end Filed

/-! ## What the loop takes away -/

/-- The lock of `hash` is there and past its time when the list is cleaned. -/
def Drops (env : SwiftTXEnv) (s : SwiftTXState) (hash : UInt256) : Prop :=
  0 ≤ env.chainHeight ∧ ∃ lock, s.mapTxLocks.lookup hash = some lock ∧ env.time > lock.nExpiration

section Clean

variable {env : SwiftTXEnv}

theorem cleanLock_mapTxLockReq_ne {s : SwiftTXState} {key key' : UInt256} {lock : CTransactionLock}
    (own : lock.txHash = key) (other : key' ≠ key) :
    (cleanLock env s key lock).mapTxLockReq.lookup key' = s.mapTxLockReq.lookup key' := by
  unfold cleanLock
  split
  · simp only
    split
    · rfl
    · rw [own]
      exact AList.lookup_erase_ne other
  · rfl

theorem lookup_lockedInputs_cleanLock {s : SwiftTXState} {key hash : UInt256}
    {lock : CTransactionLock} (own : lock.txHash = key) (o : COutPoint) :
    (cleanLock env s key lock).mapLockedInputs.lookup o = some hash ↔
      s.mapLockedInputs.lookup o = some hash ∧
        ¬ (env.time > lock.nExpiration ∧
          ∃ tx, s.mapTxLockReq.lookup key = some tx ∧ o ∈ tx.prevouts) := by
  subst own
  unfold cleanLock
  by_cases expired : env.time > lock.nExpiration
  · rw [if_pos expired]
    cases request : s.mapTxLockReq.lookup lock.txHash with
    | none => simp
    | some tx =>
      simp only [AssocMap.lookup_eraseAll]
      by_cases member : o ∈ tx.prevouts
      · simp [member, expired]
      · simp [member]
  · simp [expired]

/-- What the loop leaves of the locked inputs and of the remembered votes. -/
theorem fold_cleanLock {entries : List (Sigma fun _ : UInt256 => CTransactionLock)}
    (nodup : entries.NodupKeys) (filed : ∀ entry ∈ entries, entry.2.txHash = entry.1)
    (s : SwiftTXState) :
    (∀ o hash, (entries.foldl (fun s entry => cleanLock env s entry.1 entry.2) s
        ).mapLockedInputs.lookup o = some hash ↔
      s.mapLockedInputs.lookup o = some hash ∧
        ¬ ∃ entry ∈ entries, env.time > entry.2.nExpiration ∧
          ∃ tx, s.mapTxLockReq.lookup entry.1 = some tx ∧ o ∈ tx.prevouts) ∧
    ∀ k vote, (entries.foldl (fun s entry => cleanLock env s entry.1 entry.2) s
        ).mapTxLockVote.lookup k = some vote ↔
      s.mapTxLockVote.lookup k = some vote ∧
        ¬ ∃ entry ∈ entries, k ∈ cleanedSlots env s entry.2 := by
  induction entries generalizing s with
  | nil => simp
  | cons entry entries ih =>
    obtain ⟨fresh, nodup⟩ := List.nodupKeys_cons.mp nodup
    have own := filed entry List.mem_cons_self
    have later : ∀ entry' ∈ entries, entry'.1 ≠ entry.1 := by
      intro entry' member equal
      exact fresh (equal ▸ List.mem_keys_of_mem member)
    have request : ∀ entry' ∈ entries, (cleanLock env s entry.1 entry.2).mapTxLockReq.lookup
        entry'.1 = s.mapTxLockReq.lookup entry'.1 := fun entry' member =>
      cleanLock_mapTxLockReq_ne own (later entry' member)
    have slots : ∀ entry' ∈ entries, cleanedSlots env (cleanLock env s entry.1 entry.2) entry'.2 =
        cleanedSlots env s entry'.2 := by
      intro entry' member
      unfold cleanedSlots AssocMap.contains
      rw [filed entry' (List.mem_cons_of_mem _ member), request entry' member]
    obtain ⟨inputs, votes⟩ := ih nodup
      (fun entry' member => filed entry' (List.mem_cons_of_mem _ member))
      (cleanLock env s entry.1 entry.2)
    simp only [List.foldl_cons, List.exists_mem_cons_iff]
    constructor
    · intro o hash
      rw [inputs, lookup_lockedInputs_cleanLock own, not_or, and_assoc]
      refine and_congr_right fun _ => and_congr_right fun _ => not_congr ?_
      refine exists_congr fun entry' => and_congr_right fun member => ?_
      rw [request entry' member]
    intro k vote
    rw [votes, lookup_slots_cleanLock, not_or, ← and_assoc]
    refine and_congr ?_ (not_congr ?_)
    · split
      · rename_i cleaned
        simp [cleaned]
      · rename_i kept
        simp [kept]
    · refine exists_congr fun entry' => and_congr_right fun member => ?_
      rw [slots entry' member]

/-- What the loop leaves of the locks, and that it adds no request. -/
theorem fold_cleanLock_locks {entries : List (Sigma fun _ : UInt256 => CTransactionLock)}
    (s : SwiftTXState) :
    (∀ hash lock, (entries.foldl (fun s entry => cleanLock env s entry.1 entry.2) s
        ).mapTxLocks.lookup hash = some lock ↔
      s.mapTxLocks.lookup hash = some lock ∧
        ¬ ∃ entry ∈ entries, entry.1 = hash ∧ env.time > entry.2.nExpiration) ∧
    ∀ hash tx, (entries.foldl (fun s entry => cleanLock env s entry.1 entry.2) s
        ).mapTxLockReq.lookup hash = some tx → s.mapTxLockReq.lookup hash = some tx := by
  induction entries generalizing s with
  | nil => simp
  | cons entry entries ih =>
    obtain ⟨locks, requests⟩ := ih (cleanLock env s entry.1 entry.2)
    simp only [List.foldl_cons, List.exists_mem_cons_iff]
    constructor
    · intro hash lock
      rw [locks, cleanLock_mapTxLocks, not_or, ← and_assoc]
      refine and_congr_left fun _ => ?_
      by_cases expired : env.time > entry.2.nExpiration
      · rw [if_pos expired, AssocMap.lookup_erase_eq]
        by_cases equal : hash = entry.1
        · simp [equal, expired]
        · simp [equal, Ne.symm equal]
      · simp [expired]
    intro hash tx found
    have before := requests hash tx found
    unfold cleanLock at before
    split at before
    · simp only at before
      split at before
      · exact before
      simp only [AssocMap.lookup_erase_eq] at before
      split at before
      · cases before
      · exact before
    · exact before

end Clean

/-- The call takes away exactly the locked inputs of the locks it drops, and leaves no vote for
any of them. -/
structure CleansUp (env : SwiftTXEnv) (s : SwiftTXState) : Prop where
  lockedInputs : ∀ o hash, (cleanTransactionLocksList env s).mapLockedInputs.lookup o = some hash ↔
    s.mapLockedInputs.lookup o = some hash ∧ ¬ Drops env s hash
  votes : ∀ k vote, (cleanTransactionLocksList env s).mapTxLockVote.lookup k = some vote →
    ¬ Drops env s vote.txHash

/-- What belongs to the locks that are dropped is what their requests in `mapTxLockReq` and
their votes name. -/
structure TracedByRequests (env : SwiftTXEnv) (s : SwiftTXState) : Prop where
  lockedInputs : ∀ o hash, s.mapLockedInputs.lookup o = some hash →
    (Drops env s hash ↔
      ∃ hash' tx, Drops env s hash' ∧ s.mapTxLockReq.lookup hash' = some tx ∧ o ∈ tx.prevouts)
  votes : ∀ k vote, s.mapTxLockVote.lookup k = some vote → Drops env s vote.txHash →
    ∃ hash' lock, Drops env s hash' ∧ s.mapTxLocks.lookup hash' = some lock ∧
      s.mapTxLockReq.contains hash' = true ∧ k ∈ lock.vecConsensusVotes.map CConsensusVote.getHash

theorem mem_entries_iff {s : SwiftTXState} {entry : Sigma fun _ : UInt256 => CTransactionLock} :
    entry ∈ s.mapTxLocks.entries ↔ s.mapTxLocks.lookup entry.1 = some entry.2 := by
  rw [← Option.mem_def, AList.mem_lookup_iff]

/-- Without a chain nothing is past its time. -/
theorem not_drops {env : SwiftTXEnv} {s : SwiftTXState} (noChain : env.chainHeight < 0)
    (hash : UInt256) : ¬ Drops env s hash := fun drops => absurd drops.1 (Int.not_le.mpr noChain)

/-- What a call leaves of the locks, and that it adds no request. -/
theorem lookup_locks_clean {env : SwiftTXEnv} {s : SwiftTXState} :
    (∀ hash lock, (cleanTransactionLocksList env s).mapTxLocks.lookup hash = some lock ↔
      s.mapTxLocks.lookup hash = some lock ∧ ¬ Drops env s hash) ∧
    ∀ hash tx, (cleanTransactionLocksList env s).mapTxLockReq.lookup hash = some tx →
      s.mapTxLockReq.lookup hash = some tx := by
  unfold cleanTransactionLocksList
  split
  · rename_i noChain
    simp [not_drops noChain]
  rename_i chain
  obtain ⟨locks, requests⟩ := fold_cleanLock_locks s
  refine ⟨fun hash lock => ?_, requests⟩
  rw [locks]
  refine and_congr_right fun _ => not_congr ⟨?_, ?_⟩
  · rintro ⟨entry, member, rfl, expired⟩
    exact ⟨by omega, entry.2, mem_entries_iff.mp member, expired⟩
  · rintro ⟨-, lock', present, expired⟩
    exact ⟨⟨hash, lock'⟩, mem_entries_iff.mpr present, rfl, expired⟩

/-- What a call leaves of the locked inputs and of the remembered votes. -/
theorem lookup_clean {env : SwiftTXEnv} {s : SwiftTXState} (filed : LocksFiled s.mapTxLocks) :
    (∀ o hash, (cleanTransactionLocksList env s).mapLockedInputs.lookup o = some hash ↔
      s.mapLockedInputs.lookup o = some hash ∧
        ¬ ∃ hash' tx, Drops env s hash' ∧ s.mapTxLockReq.lookup hash' = some tx ∧ o ∈ tx.prevouts) ∧
    ∀ k vote, (cleanTransactionLocksList env s).mapTxLockVote.lookup k = some vote ↔
      s.mapTxLockVote.lookup k = some vote ∧
        ¬ ∃ hash' lock, Drops env s hash' ∧ s.mapTxLocks.lookup hash' = some lock ∧
          s.mapTxLockReq.contains hash' = true ∧
            k ∈ lock.vecConsensusVotes.map CConsensusVote.getHash := by
  unfold cleanTransactionLocksList
  split
  · rename_i noChain
    simp [not_drops noChain]
  rename_i chain
  obtain ⟨inputs, votes⟩ := fold_cleanLock s.mapTxLocks.nodupKeys
    (fun entry member => filed _ _ (mem_entries_iff.mp member)) s
  constructor
  · intro o hash
    rw [inputs]
    refine and_congr_right fun _ => not_congr ⟨?_, ?_⟩
    · rintro ⟨entry, member, expired, tx, request, spent⟩
      exact ⟨entry.1, tx, ⟨by omega, entry.2, mem_entries_iff.mp member, expired⟩, request, spent⟩
    · rintro ⟨hash', tx, ⟨-, lock, present, expired⟩, request, spent⟩
      exact ⟨⟨hash', lock⟩, mem_entries_iff.mpr present, expired, tx, request, spent⟩
  intro k vote
  rw [votes]
  refine and_congr_right fun _ => not_congr ⟨?_, ?_⟩
  · rintro ⟨entry, member, slot⟩
    have present := mem_entries_iff.mp member
    unfold cleanedSlots at slot
    split at slot
    · rename_i both
      rw [filed _ _ present] at both
      exact ⟨entry.1, entry.2, ⟨by omega, entry.2, present, both.1⟩, present, both.2, slot⟩
    · cases slot
  · rintro ⟨hash', lock, ⟨-, lock', present', expired⟩, present, request, slot⟩
    obtain rfl := Option.some.inj (present.symm.trans present')
    refine ⟨⟨hash', lock⟩, mem_entries_iff.mpr present, ?_⟩
    unfold cleanedSlots
    rw [filed _ _ present, if_pos ⟨expired, request⟩]
    exact slot

/-- After any run, a call of `CleanTransactionLocksList` takes away what it should exactly when
the requests and the votes of the locks it drops name it. -/
theorem cleansUp_iff (actions : List SwiftTXAction) (env : SwiftTXEnv) :
    CleansUp env (run swiftTXStep SwiftTXState.init actions) ↔
      TracedByRequests env (run swiftTXStep SwiftTXState.init actions) := by
  have filed := locksFiled_run actions
  generalize run swiftTXStep SwiftTXState.init actions = s at filed ⊢
  obtain ⟨inputs, votes⟩ := lookup_clean filed
  constructor
  · rintro ⟨cleanInputs, cleanVotes⟩
    constructor
    · intro o hash locked
      have same := (inputs o hash).symm.trans (cleanInputs o hash)
      rw [and_congr_right_iff] at same
      exact not_iff_not.mp (same locked).symm
    · intro k vote stored drops
      by_contra untraced
      exact cleanVotes k vote ((votes k vote).mpr ⟨stored, untraced⟩) drops
  · rintro ⟨tracedInputs, tracedVotes⟩
    constructor
    · intro o hash
      rw [inputs]
      exact and_congr_right fun locked => not_congr (tracedInputs o hash locked).symm
    · intro k vote left drops
      obtain ⟨stored, untraced⟩ := (votes k vote).mp left
      exact untraced (tracedVotes k vote stored drops)

def hourLater : SwiftTXEnv := { sampleEnv true with time := 10000 }

/-- The lock of a rejected request is dropped, and its input stays locked for it. -/
theorem rejectedRequest_stays_locked :
    ¬ ∀ actions env, CleansUp env (run swiftTXStep SwiftTXState.init actions) := by
  intro claim
  have clean := claim [.ix (sampleEnv false) sampleRequest] hourLater
  have left : (cleanTransactionLocksList hourLater (run swiftTXStep SwiftTXState.init
      [.ix (sampleEnv false) sampleRequest])).mapLockedInputs.lookup ⟨7, 0⟩ = some 1 := by
    decide +kernel
  have present : (run swiftTXStep SwiftTXState.init [.ix (sampleEnv false) sampleRequest]
      ).mapTxLocks.lookup 1 = some ⟨103, 1, [], 4600, 1300⟩ := by decide +kernel
  exact ((clean.lockedInputs _ _).mp left).2 ⟨by decide, _, present, by decide⟩

end Esbcoin.SwiftTX
