import Esbcoin.SwiftTX.Expiry

/-!
# Locks that complete

A lock completes with a vote, or with the request that gives it its block height when the votes came
first. On completion the node looks for conflicting locks and locks the inputs of the transaction,
which it can only do where it has the request.
-/

namespace Esbcoin.SwiftTX

open StepRun

/-- The clock reading of a step. -/
def SwiftTXAction.time : SwiftTXAction → Int
  | .ix env _ => env.time
  | .txlvote env _ => env.time
  | .relayTransactionLockReq env _ => env.time
  | .cleanTransactionLocksList env => env.time
  | .checkBlock env _ => env.time

/-- The lock expires at the time. -/
def ExpiresAt (s : SwiftTXState) (hash : UInt256) (time : Int) : Prop :=
  ∀ lock, s.mapTxLocks.lookup hash = some lock → lock.nExpiration = time

/-- The conflict check and the input locking have run on these inputs: one of them is locked
for another transaction and both locks expire now, or all of them are locked for `hash`. -/
def RanOn (s : SwiftTXState) (time : Int) (hash : UInt256) (prevouts : List COutPoint) : Prop :=
  (∃ o ∈ prevouts, ∃ other ≠ hash, s.mapLockedInputs.lookup o = some other ∧
    ExpiresAt s hash time ∧ ExpiresAt s other time) ∨
  ∀ o ∈ prevouts, s.mapLockedInputs.lookup o = some hash

/-! ## The conflict check -/

section Check

variable {env : SwiftTXEnv} {s : SwiftTXState}

theorem lookup_expireLock (hash key : UInt256) :
    (expireLock env s hash).mapTxLocks.lookup key =
      if key = hash then
        (s.mapTxLocks.lookup hash).map (fun lock => { lock with nExpiration := env.time })
      else s.mapTxLocks.lookup key :=
  AssocMap.lookup_modify _ _ _ _

theorem lookup_expireLock_some {hash key : UInt256} {lock : CTransactionLock}
    (found : (expireLock env s hash).mapTxLocks.lookup key = some lock) :
    ∃ before, s.mapTxLocks.lookup key = some before ∧
      (lock = before ∨ lock = { before with nExpiration := env.time }) := by
  rw [lookup_expireLock] at found
  split at found
  · rename_i equal
    obtain ⟨before, present, rfl⟩ := Option.map_eq_some_iff.mp found
    exact ⟨before, by rw [equal, present], Or.inr rfl⟩
  · exact ⟨lock, found, Or.inl rfl⟩

theorem expiresAt_expireLock_self (hash : UInt256) :
    ExpiresAt (expireLock env s hash) hash env.time := by
  intro lock found
  rw [lookup_expireLock, if_pos rfl] at found
  obtain ⟨before, -, rfl⟩ := Option.map_eq_some_iff.mp found
  rfl

theorem ExpiresAt.expireLock {key : UInt256} (h : ExpiresAt s key env.time) (hash : UInt256) :
    ExpiresAt (expireLock env s hash) key env.time := by
  intro lock found
  obtain ⟨before, present, rfl | rfl⟩ := lookup_expireLock_some found
  · exact h _ present
  · rfl

/-- The check leaves every lock, or lets it expire now. -/
theorem lookup_checkForConflictingLocks {tx : CTransaction} {key : UInt256}
    {lock : CTransactionLock}
    (found : (checkForConflictingLocks env s tx).1.mapTxLocks.lookup key = some lock) :
    ∃ before, s.mapTxLocks.lookup key = some before ∧
      (lock = before ∨ lock = { before with nExpiration := env.time }) := by
  unfold checkForConflictingLocks at found
  split at found
  · obtain ⟨middle, present, second⟩ := lookup_expireLock_some found
    obtain ⟨before, present, first⟩ := lookup_expireLock_some present
    refine ⟨before, present, ?_⟩
    rcases second with rfl | rfl
    · exact first
    · rcases first with rfl | rfl
      · exact Or.inr rfl
      · exact Or.inr rfl
  · exact ⟨lock, found, Or.inl rfl⟩

theorem findConflict_eq_none {tx : CTransaction}
    (h : findConflict s.mapLockedInputs tx = none) {o : COutPoint} (member : o ∈ tx.prevouts)
    {owner : UInt256} (locked : s.mapLockedInputs.lookup o = some owner) : owner = tx.getHash := by
  obtain ⟨txin, input, rfl⟩ := List.mem_map.mp member
  have free := List.findSome?_eq_none_iff.mp h txin input
  rw [locked] at free
  by_contra other
  simp [other] at free

/-- A conflict lets both locks expire, and without one every locked input is the
transaction's own. -/
theorem checkForConflictingLocks_cases (env : SwiftTXEnv) (s : SwiftTXState) (tx : CTransaction) :
    ((checkForConflictingLocks env s tx).2 = true ∧
      ∃ o ∈ tx.prevouts, ∃ other ≠ tx.getHash, s.mapLockedInputs.lookup o = some other ∧
        ExpiresAt (checkForConflictingLocks env s tx).1 tx.getHash env.time ∧
        ExpiresAt (checkForConflictingLocks env s tx).1 other env.time) ∨
    (checkForConflictingLocks env s tx = (s, false) ∧
      ∀ o ∈ tx.prevouts, ∀ owner, s.mapLockedInputs.lookup o = some owner → owner = tx.getHash) := by
  unfold checkForConflictingLocks
  split
  · rename_i hash found
    obtain ⟨o, member, locked, other⟩ := findConflict_eq_some found
    exact Or.inl ⟨rfl, o, member, hash, other, locked,
      (expiresAt_expireLock_self _).expireLock _, expiresAt_expireLock_self _⟩
  · rename_i free
    exact Or.inr ⟨rfl, fun o member owner locked => findConflict_eq_none free member locked⟩

theorem checkForConflictingLocks_mapTxLockReq (tx : CTransaction) :
    (checkForConflictingLocks env s tx).1.mapTxLockReq = s.mapTxLockReq := by
  unfold checkForConflictingLocks
  split <;> rfl

theorem emit_mapTxLockReq (effect : SwiftTXEffect) :
    (s.emit effect).mapTxLockReq = s.mapTxLockReq := rfl

theorem doConsensusVote_mapTxLockReq (tx : CTransaction) (nBlockHeight : Int) :
    (doConsensusVote env s tx nBlockHeight).mapTxLockReq = s.mapTxLockReq := by
  unfold doConsensusVote
  split <;> rfl

theorem relayVote_mapTxLockReq (env : SwiftTXEnv) (s : SwiftTXState) (ctx : CConsensusVote) :
    (relayVote env s ctx).mapTxLockReq = s.mapTxLockReq := by
  simp only [relayVote]
  split
  · rfl
  · split <;> rfl

end Check

/-! ## What a complete lock has gone through -/

/-- A complete lock behind a step: the conflict check and the input locking have just run, or the
lock was complete before the step, which leaves it its inputs. -/
def Accounted (txOf : UInt256 → CTransaction) (s s' : SwiftTXState) (time : Int)
    (hash : UInt256) (lock : CTransactionLock) : Prop :=
  RanOn s' time hash (txOf hash).prevouts ∨
    ∃ before, s.mapTxLocks.lookup hash = some before ∧ before.isComplete = true ∧
      (lock.nExpiration = before.nExpiration ∨ lock.nExpiration = time) ∧
      ∀ o ∈ (txOf hash).prevouts, s.mapLockedInputs.lookup o = some hash →
        s'.mapLockedInputs.lookup o = some hash

section Steps

variable {txOf : UInt256 → CTransaction} {env : SwiftTXEnv} {s s' : SwiftTXState}
variable {tx : CTransaction} {hash : UInt256} {lock : CTransactionLock}

theorem lookup_insertNewAll_of_some {m : AssocMap COutPoint UInt256} {o : COutPoint}
    {owner : UInt256} (locked : m.lookup o = some owner) (keys : List COutPoint) (v : UInt256) :
    (m.insertNewAll keys v).lookup o = some owner := by
  rw [AssocMap.lookup_insertNewAll]
  split
  · rw [locked]
    rfl
  · exact locked

/-- A lock that the step leaves, or only lets expire. -/
theorem Accounted.of_before {time : Int} {before : CTransactionLock}
    (present : s.mapTxLocks.lookup hash = some before)
    (change : lock = before ∨ lock = { before with nExpiration := time })
    (complete : lock.isComplete = true)
    (keeps : ∀ o owner, s.mapLockedInputs.lookup o = some owner →
      s'.mapLockedInputs.lookup o = some owner) :
    Accounted txOf s s' time hash lock := by
  refine Or.inr ⟨before, present, ?_, ?_, fun o _ locked => keeps o hash locked⟩
  · rcases change with rfl | rfl
    · exact complete
    · exact complete
  · rcases change with rfl | rfl
    · exact Or.inl rfl
    · exact Or.inr rfl

theorem lookup_createNewLock_ne (other : hash ≠ tx.getHash) :
    (createNewLock env s tx).1.mapTxLocks.lookup hash = s.mapTxLocks.lookup hash := by
  unfold createNewLock
  split
  · rfl
  · split
    · exact AList.lookup_insert_ne other
    · exact AList.lookup_insert_ne other

theorem complete_createNewLock
    (found : (createNewLock env s tx).1.mapTxLocks.lookup tx.getHash = some lock)
    (complete : lock.isComplete = true) :
    CompleteAtRequest env s tx ∧ ∃ before, s.mapTxLocks.lookup tx.getHash = some before ∧
      lock.nExpiration = before.nExpiration := by
  have counted : SWIFTTX_SIGNATURES_REQUIRED ≤ lock.countSignatures := by
    simpa [CTransactionLock.isComplete] using complete
  unfold CompleteAtRequest
  unfold createNewLock at found
  cases height : lockHeight env tx with
  | none =>
    rw [height] at found
    exact ⟨⟨lock, found, counted⟩, lock, found, rfl⟩
  | some nBlockHeight =>
    rw [height] at found
    cases present : s.mapTxLocks.lookup tx.getHash with
    | none =>
      simp only [present, AssocMap.lookup_insert_eq, ↓reduceIte, Option.some.injEq] at found
      rw [← found] at counted
      simp only [CTransactionLock.countSignatures, SWIFTTX_SIGNATURES_REQUIRED] at counted
      split at counted <;> simp at counted
    | some before =>
      simp only [present, AssocMap.lookup_insert_eq, ↓reduceIte, Option.some.injEq] at found
      subst found
      exact ⟨⟨before, rfl, counted⟩, before, rfl, rfl⟩

/-- A request that changes no locked inputs, where its lock does not complete with it unless
its inputs are locked for it. -/
theorem accounted_createNewLock (own : txOf tx.getHash = tx)
    (locks : s'.mapTxLocks = (createNewLock env s tx).1.mapTxLocks)
    (inputs : s'.mapLockedInputs = s.mapLockedInputs)
    (settled : CompleteAtRequest env s tx → HasCompleteLock s tx.getHash ∨
      ∀ o ∈ tx.prevouts, s.mapLockedInputs.lookup o = some tx.getHash)
    (found : s'.mapTxLocks.lookup hash = some lock) (complete : lock.isComplete = true) :
    Accounted txOf s s' env.time hash lock := by
  have keeps : ∀ o owner, s.mapLockedInputs.lookup o = some owner →
      s'.mapLockedInputs.lookup o = some owner := by
    rw [inputs]
    exact fun _ _ locked => locked
  rw [locks] at found
  by_cases equal : hash = tx.getHash
  · subst equal
    obtain ⟨atRequest, before, present, expiration⟩ := complete_createNewLock found complete
    rcases settled atRequest with ⟨before', present', counted⟩ | locked
    · obtain rfl := Option.some.inj (present.symm.trans present')
      refine Or.inr ⟨before, present, ?_, Or.inl expiration, fun o _ => keeps o _⟩
      simpa [CTransactionLock.isComplete] using counted
    · refine Or.inl (Or.inr ?_)
      rw [own, inputs]
      exact locked
  · rw [lookup_createNewLock_ne equal] at found
    exact Accounted.of_before found (Or.inl rfl) complete keeps

theorem ixRejected_mapLockedInputs :
    (ixRejected env s tx).mapLockedInputs =
      s.mapLockedInputs.insertNewAll tx.prevouts tx.getHash := by
  simp only [ixRejected]
  split
  · rfl
  split
  · split
    · exact checkForConflictingLocks_mapLockedInputs _ _ _
    · exact checkForConflictingLocks_mapLockedInputs _ _ _
  · rfl

/-- A lock behind a rejected request is the one before, or the check has run on the inputs. -/
theorem ixRejected_lock
    (found : (ixRejected env s tx).mapTxLocks.lookup hash = some lock)
    (complete : lock.isComplete = true) :
    (hash = tx.getHash ∧ RanOn (ixRejected env s tx) env.time hash tx.prevouts) ∨
      hash ≠ tx.getHash ∧ ∃ before, s.mapTxLocks.lookup hash = some before ∧
        (lock = before ∨ lock = { before with nExpiration := env.time }) := by
  by_cases equal : hash = tx.getHash
  · subst equal
    refine Or.inl ⟨rfl, ?_⟩
    have inputs := @ixRejected_mapLockedInputs env s tx
    unfold RanOn
    rw [inputs]
    simp only [ixRejected] at found ⊢
    split at found
    · rename_i absent
      rw [absent] at found
      cases found
    rename_i own present
    split at found
    · rename_i ownComplete
      simp only [ownComplete, if_true]
      rcases checkForConflictingLocks_cases env { s with
          mapTxLockReqRejected := s.mapTxLockReqRejected.insertNew tx.getHash tx
          mapLockedInputs := s.mapLockedInputs.insertNewAll tx.prevouts tx.getHash } tx with
        ⟨conflict, o, member, other, ne, locked, first, second⟩ | ⟨checked, mine⟩
      · rw [if_pos conflict]
        exact Or.inl ⟨o, member, other, ne, locked, first, second⟩
      refine Or.inr fun o member => ?_
      have present : ∃ owner, (s.mapLockedInputs.insertNewAll tx.prevouts tx.getHash).lookup o =
          some owner := by
        rw [AssocMap.lookup_insertNewAll, if_pos member]
        exact ⟨_, rfl⟩
      obtain ⟨owner, locked⟩ := present
      rw [locked, mine o member owner locked]
    · rename_i incomplete
      rw [present] at found
      obtain rfl := Option.some.inj found
      exact absurd complete incomplete
  · refine Or.inr ⟨equal, ?_⟩
    simp only [ixRejected] at found
    split at found
    · exact ⟨lock, found, Or.inl rfl⟩
    split at found
    · split at found
      · obtain ⟨before, present, change⟩ := lookup_checkForConflictingLocks found
        exact ⟨before, present, change⟩
      · obtain ⟨before, present, change⟩ := lookup_checkForConflictingLocks found
        exact ⟨before, present, change⟩
    · exact ⟨lock, found, Or.inl rfl⟩

/-- A request that the mempool rejected. -/
theorem accounted_ixRejected (own : txOf tx.getHash = tx)
    (found : (ixRejected env (createNewLock env s tx).1 tx).mapTxLocks.lookup hash = some lock)
    (complete : lock.isComplete = true) :
    Accounted txOf s (ixRejected env (createNewLock env s tx).1 tx) env.time hash lock := by
  rcases ixRejected_lock found complete with ⟨rfl, ran⟩ | ⟨other, before, present, change⟩
  · refine Or.inl ?_
    rwa [own]
  rw [lookup_createNewLock_ne other] at present
  refine Accounted.of_before present change complete fun o owner locked => ?_
  rw [ixRejected_mapLockedInputs, createNewLock_mapLockedInputs]
  exact lookup_insertNewAll_of_some locked _ _

/-- A vote that completes the lock of a request: the check runs on the request's inputs. -/
theorem lockComplete_of_request (request : s.mapTxLockReq.lookup hash = some tx)
    (own : tx.getHash = hash) :
    (lockComplete env s hash).mapTxLockReq = s.mapTxLockReq ∧
      RanOn (lockComplete env s hash) env.time hash tx.prevouts ∧
      (∀ key lock, (lockComplete env s hash).mapTxLocks.lookup key = some lock →
        ∃ before, s.mapTxLocks.lookup key = some before ∧
          (lock = before ∨ lock = { before with nExpiration := env.time })) ∧
      ∀ o owner, s.mapLockedInputs.lookup o = some owner →
        (lockComplete env s hash).mapLockedInputs.lookup o = some owner := by
  have same : s.mapTxLockReq.insertNew hash CTransaction.empty = s.mapTxLockReq := by
    unfold AssocMap.insertNew
    rw [request]
  unfold lockComplete
  simp only [request, Option.getD_some, same]
  rcases checkForConflictingLocks_cases env s tx with
    ⟨conflict, o, member, other, ne, locked, first, second⟩ | ⟨checked, mine⟩
  · rw [if_pos conflict]
    rw [own] at ne first
    refine ⟨checkForConflictingLocks_mapTxLockReq _, Or.inl ⟨o, member, other, ne, ?_, first,
      second⟩, fun key lock => lookup_checkForConflictingLocks, fun o owner => ?_⟩
    · rw [checkForConflictingLocks_mapLockedInputs]
      exact locked
    · rw [checkForConflictingLocks_mapLockedInputs]
      exact id
  rw [checked]
  simp only [Bool.false_eq_true, ↓reduceIte]
  have locked : ∀ o ∈ tx.prevouts,
      (s.mapLockedInputs.insertNewAll tx.prevouts hash).lookup o = some hash := by
    intro o member
    rw [AssocMap.lookup_insertNewAll, if_pos member]
    cases before : s.mapLockedInputs.lookup o with
    | none => rfl
    | some owner => rw [mine o member owner before, own]; rfl
  split
  · exact ⟨rfl, Or.inr locked, fun key lock found => ⟨lock, found, Or.inl rfl⟩,
      fun o owner before => lookup_insertNewAll_of_some before _ _⟩
  · exact ⟨rfl, Or.inr locked, fun key lock found => ⟨lock, found, Or.inl rfl⟩,
      fun o owner before => lookup_insertNewAll_of_some before _ _⟩

theorem accounted_countVote {ctx : CConsensusVote}
    (requests : ∀ hash tx, s.mapTxLockReq.lookup hash = some tx → tx = txOf hash)
    (own : ∀ hash, (txOf hash).getHash = hash)
    (known : (lockWithVote env s ctx).isComplete = true →
      s.mapTxLockReq.contains ctx.txHash = true) :
    (countVote env s ctx).mapTxLockReq = s.mapTxLockReq ∧
      ∀ hash lock, (countVote env s ctx).mapTxLocks.lookup hash = some lock →
        lock.isComplete = true → Accounted txOf s (countVote env s ctx) env.time hash lock := by
  simp only [countVote]
  split
  · rename_i complete
    obtain ⟨tx, request⟩ := (AssocMap.contains_iff _ _).mp (known complete)
    have mine := requests _ _ request
    obtain ⟨same, ran, locks, inputs⟩ := @lockComplete_of_request env
      { s with mapTxLocks := s.mapTxLocks.insert ctx.txHash (lockWithVote env s ctx) } _ _
      request (by rw [mine, own])
    refine ⟨same, fun hash lock found complete => ?_⟩
    by_cases equal : hash = ctx.txHash
    · subst equal
      rw [mine] at ran
      exact Or.inl ran
    · obtain ⟨before, present, change⟩ := locks hash lock found
      rw [AList.lookup_insert_ne equal] at present
      exact Accounted.of_before present change complete inputs
  · rename_i incomplete
    refine ⟨rfl, fun hash lock found complete => ?_⟩
    by_cases equal : hash = ctx.txHash
    · subst equal
      rw [AList.lookup_insert] at found
      obtain rfl := Option.some.inj found
      exact absurd complete incomplete
    · rw [AList.lookup_insert_ne equal] at found
      exact Accounted.of_before found (Or.inl rfl) complete fun o owner => id

end Steps

/-! ## Runs -/

/-- A step with the time it is made at. -/
def timedStep (w : SwiftTXState × Int) (a : SwiftTXAction) : SwiftTXState × Int :=
  (swiftTXStep w.1 a, a.time)

/-- A lock that completes on the request gets its inputs. -/
def SettledAtRequest (env : SwiftTXEnv) (s : SwiftTXState) (tx : CTransaction) : Prop :=
  CompleteAtRequest env s tx → HasCompleteLock s tx.getHash ∨
    ∀ o ∈ tx.prevouts, s.mapLockedInputs.lookup o = some tx.getHash

/-- A step of a node whose clock does not go back, where a hash stands for one transaction. -/
def Genuine (txOf : UInt256 → CTransaction) (w : SwiftTXState × Int) (a : SwiftTXAction) : Prop :=
  w.2 ≤ a.time ∧ match a with
    | .ix _ tx => txOf tx.getHash = tx
    | .relayTransactionLockReq _ tx => txOf tx.getHash = tx
    | _ => True

/-- A genuine step in which locks complete on their requests: a request that completes a lock has
its inputs, a vote that does has its request, and no dropped lock takes inputs of another. -/
def CompletesOnRequest (txOf : UInt256 → CTransaction) (w : SwiftTXState × Int)
    (a : SwiftTXAction) : Prop :=
  Genuine txOf w a ∧ match a with
    | .ix env tx => ixTakenUp env w.1 tx = true → acceptToMemoryPool env w.1 tx = true →
        SettledAtRequest env w.1 tx
    | .relayTransactionLockReq env tx => SettledAtRequest env w.1 tx
    | .txlvote env ctx =>
        env.handlesMessages = true → w.1.mapTxLockVote.contains ctx.getHash = false →
          voteValid env ctx = true → (lockWithVote env w.1 ctx).isComplete = true →
            w.1.mapTxLockReq.contains ctx.txHash = true
    | .cleanTransactionLocksList env =>
        ∀ hash tx, Drops env w.1 hash → w.1.mapTxLockReq.lookup hash = some tx →
          ∀ o ∈ tx.prevouts, ∀ owner, w.1.mapLockedInputs.lookup o = some owner →
            HasCompleteLock w.1 owner → Drops env w.1 owner
    | .checkBlock _ _ => True

/-- A lock that completes in the step has had the conflict check and the input locking on the
inputs of its transaction. -/
def RunsOnInputs (txOf : UInt256 → CTransaction) (s : SwiftTXState) (a : SwiftTXAction) : Prop :=
  ∀ hash, ¬ HasCompleteLock s hash → HasCompleteLock (swiftTXStep s a) hash →
    RanOn (swiftTXStep s a) a.time hash (txOf hash).prevouts

/-- A vote makes no request, and every request is taken up behind it as it was before. -/
def MakesNoRequest (s : SwiftTXState) (a : SwiftTXAction) : Prop :=
  ∀ env ctx, a = .txlvote env ctx → (swiftTXStep s a).mapTxLockReq = s.mapTxLockReq ∧
    ∀ later tx, ixTakenUp later (swiftTXStep s a) tx = ixTakenUp later s tx

/-- No two complete locks with time left are for transactions with a common input. -/
def OneClaimant (txOf : UInt256 → CTransaction) (s : SwiftTXState) (time : Int) : Prop :=
  ∀ first second lock lock', s.mapTxLocks.lookup first = some lock →
    s.mapTxLocks.lookup second = some lock' → lock.isComplete = true → lock'.isComplete = true →
    time < lock.nExpiration → time < lock'.nExpiration →
    ∀ o ∈ (txOf first).prevouts, o ∈ (txOf second).prevouts → first = second

/-- What a step with its locks should be like. -/
def LocksAgree (txOf : UInt256 → CTransaction) (w : SwiftTXState × Int) (a : SwiftTXAction) :
    Prop :=
  RunsOnInputs txOf w.1 a ∧ MakesNoRequest w.1 a ∧ OneClaimant txOf (swiftTXStep w.1 a) a.time

/-- The requests are genuine, and a complete lock with time left has all its inputs. -/
structure HoldsInputs (txOf : UInt256 → CTransaction) (w : SwiftTXState × Int) : Prop where
  filed : LocksFiled w.1.mapTxLocks
  requests : ∀ hash tx, w.1.mapTxLockReq.lookup hash = some tx → tx = txOf hash
  inputs : ∀ hash lock, w.1.mapTxLocks.lookup hash = some lock → lock.isComplete = true →
    w.2 < lock.nExpiration → ∀ o ∈ (txOf hash).prevouts, w.1.mapLockedInputs.lookup o = some hash

section Run

variable {txOf : UInt256 → CTransaction} {w : SwiftTXState × Int} {a : SwiftTXAction}

/-- One claimant is what the inputs of complete locks give. -/
theorem HoldsInputs.oneClaimant (holds : HoldsInputs txOf w) : OneClaimant txOf w.1 w.2 := by
  intro first second lock lock' found found' complete complete' left left' o member member'
  have mine := holds.inputs first lock found complete left o member
  have other := holds.inputs second lock' found' complete' left' o member'
  exact Option.some.inj (mine.symm.trans other)

/-- Complete locks that are accounted for have their inputs while they have time left. -/
theorem HoldsInputs.of_accounted (holds : HoldsInputs txOf w) {s' : SwiftTXState} {time : Int}
    (later : w.2 ≤ time) (filed : LocksFiled s'.mapTxLocks)
    (requests : ∀ hash tx, s'.mapTxLockReq.lookup hash = some tx → tx = txOf hash)
    (accounted : ∀ hash lock, s'.mapTxLocks.lookup hash = some lock → lock.isComplete = true →
      Accounted txOf w.1 s' time hash lock) : HoldsInputs txOf (s', time) where
  filed := filed
  requests := requests
  inputs := by
    intro hash lock found complete left o member
    rcases accounted hash lock found complete with
      (⟨_, -, _, -, -, expires, -⟩ | ran) | ⟨before, present, wasComplete, change, keeps⟩
    · have := expires lock found
      omega
    · exact ran o member
    · have left : time < lock.nExpiration := left
      refine keeps o member (holds.inputs hash before present wasComplete ?_ o member)
      omega

theorem runsOnInputs_of_accounted {s : SwiftTXState}
    (accounted : ∀ hash lock, (swiftTXStep s a).mapTxLocks.lookup hash = some lock →
      lock.isComplete = true → Accounted txOf s (swiftTXStep s a) a.time hash lock) :
    RunsOnInputs txOf s a := by
  rintro hash fresh ⟨lock, found, counted⟩
  have complete : lock.isComplete = true := by simpa [CTransactionLock.isComplete] using counted
  rcases accounted hash lock found complete with ran | ⟨before, present, wasComplete, -⟩
  · exact ran
  · refine absurd ⟨before, present, ?_⟩ fresh
    simpa [CTransactionLock.isComplete] using wasComplete

theorem requests_insertNew {m : AssocMap UInt256 CTransaction}
    (requests : ∀ hash tx, m.lookup hash = some tx → tx = txOf hash) {tx : CTransaction}
    (own : txOf tx.getHash = tx) (hash : UInt256) (tx' : CTransaction)
    (found : (m.insertNew tx.getHash tx).lookup hash = some tx') : tx' = txOf hash := by
  rw [AssocMap.lookup_insertNew] at found
  split at found
  · rename_i equal
    subst equal
    cases before : m.lookup tx.getHash with
    | none =>
      rw [before] at found
      rw [own]
      exact (Option.some.inj found).symm
    | some old =>
      rw [before] at found
      obtain rfl : old = tx' := Option.some.inj found
      exact requests _ _ before
  · exact requests hash tx' found

@[simp] theorem createNewLock_mapTxLockReq (env : SwiftTXEnv) (s : SwiftTXState)
    (tx : CTransaction) : (createNewLock env s tx).1.mapTxLockReq = s.mapTxLockReq := by
  unfold createNewLock
  split
  · rfl
  · split <;> rfl

theorem ixRejected_mapTxLockReq (env : SwiftTXEnv) (s : SwiftTXState) (tx : CTransaction) :
    (ixRejected env s tx).mapTxLockReq = s.mapTxLockReq ∨
      (ixRejected env s tx).mapTxLockReq = s.mapTxLockReq.insertNew tx.getHash tx := by
  simp only [ixRejected]
  split
  · exact Or.inl rfl
  split
  · split
    · exact Or.inl (checkForConflictingLocks_mapTxLockReq _)
    · refine Or.inr ?_
      rw [emit_mapTxLockReq, checkForConflictingLocks_mapTxLockReq]
  · exact Or.inl rfl

theorem accounted_ix {env : SwiftTXEnv} {s : SwiftTXState} {tx : CTransaction}
    (requests : ∀ hash tx, s.mapTxLockReq.lookup hash = some tx → tx = txOf hash)
    (own : txOf tx.getHash = tx)
    (settled : ixTakenUp env s tx = true → acceptToMemoryPool env s tx = true →
      SettledAtRequest env s tx) :
    (∀ hash tx', (ix env s tx).mapTxLockReq.lookup hash = some tx' → tx' = txOf hash) ∧
      ∀ hash lock, (ix env s tx).mapTxLocks.lookup hash = some lock → lock.isComplete = true →
        Accounted txOf s (ix env s tx) env.time hash lock := by
  unfold ix
  split
  · rename_i takenUp
    simp only [acceptToMemoryPool_createNewLock]
    split
    · rename_i accepted
      constructor
      · intro hash tx' found
        have request : (ixAccepted env (createNewLock env s tx).1 tx (createNewLock env s tx).2
            ).mapTxLockReq = s.mapTxLockReq.insertNew tx.getHash tx := by
          simp only [ixAccepted, doConsensusVote_mapTxLockReq, emit_mapTxLockReq,
            createNewLock_mapTxLockReq]
        rw [request] at found
        exact requests_insertNew requests own hash tx' found
      · intro hash lock found complete
        refine accounted_createNewLock own ?_ ?_ (settled takenUp accepted) found complete
        · simp [ixAccepted]
        · simp [ixAccepted]
    · constructor
      · intro hash tx' found
        rcases ixRejected_mapTxLockReq env (createNewLock env s tx).1 tx with same | inserted
        · rw [same, createNewLock_mapTxLockReq] at found
          exact requests hash tx' found
        · rw [inserted, createNewLock_mapTxLockReq] at found
          exact requests_insertNew requests own hash tx' found
      · exact fun hash lock found complete => accounted_ixRejected own found complete
  · exact ⟨requests, fun hash lock found complete =>
      Accounted.of_before found (Or.inl rfl) complete fun _ _ => id⟩

theorem accounted_txlvote {env : SwiftTXEnv} {s : SwiftTXState} {ctx : CConsensusVote}
    (requests : ∀ hash tx, s.mapTxLockReq.lookup hash = some tx → tx = txOf hash)
    (own : ∀ hash, (txOf hash).getHash = hash)
    (known : env.handlesMessages = true → s.mapTxLockVote.contains ctx.getHash = false →
      voteValid env ctx = true → (lockWithVote env s ctx).isComplete = true →
        s.mapTxLockReq.contains ctx.txHash = true) :
    (txlvote env s ctx).mapTxLockReq = s.mapTxLockReq ∧
      ∀ hash lock, (txlvote env s ctx).mapTxLocks.lookup hash = some lock →
        lock.isComplete = true → Accounted txOf s (txlvote env s ctx) env.time hash lock := by
  have unchanged : ∀ s' : SwiftTXState, s'.mapTxLockReq = s.mapTxLockReq →
      s'.mapTxLocks = s.mapTxLocks → s'.mapLockedInputs = s.mapLockedInputs →
      s'.mapTxLockReq = s.mapTxLockReq ∧ ∀ hash lock, s'.mapTxLocks.lookup hash = some lock →
        lock.isComplete = true → Accounted txOf s s' env.time hash lock := by
    intro s' sameRequests sameLocks sameInputs
    refine ⟨sameRequests, fun hash lock found complete => ?_⟩
    rw [sameLocks] at found
    refine Accounted.of_before found (Or.inl rfl) complete fun o owner locked => ?_
    rw [sameInputs]
    exact locked
  simp only [txlvote]
  split
  · exact unchanged s rfl rfl rfl
  rename_i handled
  split
  · exact unchanged s rfl rfl rfl
  rename_i fresh
  cases valid : voteValid env ctx with
  | false =>
    obtain ⟨effects, processed⟩ := processConsensusVote_of_invalid valid
      { s with mapTxLockVote := s.mapTxLockVote.insert ctx.getHash ctx }
    simp only [processed]
    exact unchanged _ rfl rfl rfl
  | true =>
    obtain ⟨sameRequests, accounted⟩ := @accounted_countVote _ env
      { s with mapTxLockVote := s.mapTxLockVote.insert ctx.getHash ctx } _ requests own
      (known (by simpa using handled) (by simpa using fresh) valid)
    simp only [processConsensusVote_of_valid valid, ↓reduceIte]
    refine ⟨(relayVote_mapTxLockReq _ _ _).trans sameRequests, fun hash lock found complete => ?_⟩
    rw [relayVote_mapTxLocks] at found
    have before := accounted hash lock found complete
    unfold Accounted RanOn ExpiresAt at before ⊢
    rw [relayVote_mapTxLocks, relayVote_mapLockedInputs]
    exact before

/-- Every complete lock behind a step that meets the condition is accounted for. -/
theorem accounted_step (own : ∀ hash, (txOf hash).getHash = hash) (holds : HoldsInputs txOf w)
    (good : CompletesOnRequest txOf w a) :
    (∀ hash tx, (swiftTXStep w.1 a).mapTxLockReq.lookup hash = some tx → tx = txOf hash) ∧
      ∀ hash lock, (swiftTXStep w.1 a).mapTxLocks.lookup hash = some lock →
        lock.isComplete = true → Accounted txOf w.1 (swiftTXStep w.1 a) a.time hash lock := by
  obtain ⟨⟨-, genuine⟩, good⟩ := good
  cases a with
  | ix env tx => exact accounted_ix holds.requests genuine good
  | txlvote env ctx =>
    obtain ⟨same, accounted⟩ := accounted_txlvote (s := w.1) holds.requests own good
    refine ⟨fun hash tx found => ?_, accounted⟩
    have found : (txlvote env w.1 ctx).mapTxLockReq.lookup hash = some tx := found
    rw [same] at found
    exact holds.requests hash tx found
  | relayTransactionLockReq env tx =>
    constructor
    · intro hash tx' found
      simp only [swiftTXStep, relayTransactionLockReq, emit_mapTxLockReq,
        createNewLock_mapTxLockReq] at found
      exact requests_insertNew holds.requests genuine hash tx' found
    intro hash lock found complete
    have accounted := @accounted_createNewLock _ _ { w.1 with
        mapTxLockReq := w.1.mapTxLockReq.insertNew tx.getHash tx }
      (swiftTXStep w.1 (.relayTransactionLockReq env tx)) _ _ _ genuine rfl
      (createNewLock_mapLockedInputs _ _ _) good found complete
    exact accounted
  | cleanTransactionLocksList env =>
    obtain ⟨locks, requests⟩ := @lookup_locks_clean env w.1
    refine ⟨fun hash tx found => holds.requests hash tx (requests hash tx found), ?_⟩
    intro hash lock found complete
    obtain ⟨present, kept⟩ := (locks hash lock).mp found
    refine Or.inr ⟨lock, present, complete, Or.inl rfl, fun o _ locked => ?_⟩
    refine ((lookup_clean holds.filed).1 o hash).mpr ⟨locked, ?_⟩
    rintro ⟨hash', tx, drops, request, spent⟩
    refine kept (good hash' tx drops request o spent hash locked ⟨lock, present, ?_⟩)
    simpa [CTransactionLock.isComplete] using complete
  | checkBlock env block =>
    have same : ∀ s', s' = w.1 ∨ s' = { w.1 with
        mapRejectedBlocks := w.1.mapRejectedBlocks.insertNew block.getHash env.time } →
        (∀ hash tx, s'.mapTxLockReq.lookup hash = some tx → tx = txOf hash) ∧
        ∀ hash lock, s'.mapTxLocks.lookup hash = some lock → lock.isComplete = true →
          Accounted txOf w.1 s' env.time hash lock := by
      rintro s' (rfl | rfl)
      · exact ⟨holds.requests, fun hash lock found complete =>
          Accounted.of_before found (Or.inl rfl) complete fun _ _ => id⟩
      · exact ⟨holds.requests, fun hash lock found complete =>
          Accounted.of_before found (Or.inl rfl) complete fun _ _ => id⟩
    refine same _ ?_
    simp only [swiftTXStep, checkBlock]
    split
    · exact Or.inr rfl
    · exact Or.inl rfl

theorem HoldsInputs.step (own : ∀ hash, (txOf hash).getHash = hash) (holds : HoldsInputs txOf w)
    (good : CompletesOnRequest txOf w a) : HoldsInputs txOf (timedStep w a) := by
  obtain ⟨requests, accounted⟩ := accounted_step own holds good
  exact holds.of_accounted good.1.1 (locksFiled_step holds.filed a) requests accounted

/-- A vote leaves the rejected requests alone. -/
theorem txlvote_mapTxLockReqRejected (env : SwiftTXEnv) (s : SwiftTXState) (ctx : CConsensusVote) :
    (txlvote env s ctx).mapTxLockReqRejected = s.mapTxLockReqRejected := by
  have check (t : SwiftTXState) (tx : CTransaction) :
      (checkForConflictingLocks env t tx).1.mapTxLockReqRejected = t.mapTxLockReqRejected := by
    unfold checkForConflictingLocks
    split <;> rfl
  have complete (t : SwiftTXState) (hash : UInt256) :
      (lockComplete env t hash).mapTxLockReqRejected = t.mapTxLockReqRejected := by
    simp only [lockComplete]
    split
    · exact check _ _
    · split
      · exact check _ _
      · exact check _ _
  have count (t : SwiftTXState) :
      (countVote env t ctx).mapTxLockReqRejected = t.mapTxLockReqRejected := by
    simp only [countVote]
    split
    · exact complete _ _
    · rfl
  have relay (t : SwiftTXState) :
      (relayVote env t ctx).mapTxLockReqRejected = t.mapTxLockReqRejected := by
    simp only [relayVote]
    split
    · rfl
    · split <;> rfl
  simp only [txlvote]
  split
  · rfl
  split
  · rfl
  cases valid : voteValid env ctx with
  | false =>
    obtain ⟨effects, processed⟩ := processConsensusVote_of_invalid valid
      { s with mapTxLockVote := s.mapTxLockVote.insert ctx.getHash ctx }
    simp only [processed, Bool.false_eq_true, ↓reduceIte]
  | true =>
    simp only [processConsensusVote_of_valid valid, ↓reduceIte]
    exact (relay _).trans (count _)

theorem makesNoRequest_of_good (own : ∀ hash, (txOf hash).getHash = hash)
    (holds : HoldsInputs txOf w) (good : CompletesOnRequest txOf w a) :
    MakesNoRequest w.1 a := by
  rintro env ctx rfl
  have same : (txlvote env w.1 ctx).mapTxLockReq = w.1.mapTxLockReq :=
    (accounted_txlvote holds.requests own good.2).1
  refine ⟨same, fun later tx => ?_⟩
  show ixTakenUp later (txlvote env w.1 ctx) tx = _
  unfold ixTakenUp
  rw [same, txlvote_mapTxLockReqRejected]

theorem locksAgree_of_good (own : ∀ hash, (txOf hash).getHash = hash) (holds : HoldsInputs txOf w)
    (good : CompletesOnRequest txOf w a) : LocksAgree txOf w a :=
  ⟨runsOnInputs_of_accounted (accounted_step own holds good).2,
    makesNoRequest_of_good own holds good, (holds.step own good).oneClaimant⟩

end Run

/-- In every run in which locks complete on their requests, each is checked for conflicts and locks
its inputs as it completes, and no two complete locks with time left have a common input. -/
theorem locksAgree_of_completesOnRequest {txOf : UInt256 → CTransaction}
    (own : ∀ hash, (txOf hash).getHash = hash) {start : Int} {actions : List SwiftTXAction}
    (good : AllSteps timedStep (CompletesOnRequest txOf) (SwiftTXState.init, start) actions) :
    AllSteps timedStep (LocksAgree txOf) (SwiftTXState.init, start) actions := by
  refine good.of_invariant (I := HoldsInputs txOf) (fun _ _ holds step => holds.step own step)
    (fun _ _ holds step => locksAgree_of_good own holds step) ⟨?_, ?_, ?_⟩
  · intro key lock found
    cases found
  · intro hash tx found
    cases found
  · intro hash lock found
    cases found

def sampleTxOf (hash : UInt256) : CTransaction := { sampleRequest with hash }

/-- A request accepted by the mempool, then six votes: the lock completes on its input. -/
theorem sampleRun_locksAgree :
    AllSteps timedStep (LocksAgree sampleTxOf) (SwiftTXState.init, 0) sampleRun ∧
      HasCompleteLock (run swiftTXStep SwiftTXState.init sampleRun) 1 := by
  constructor
  · refine locksAgree_of_completesOnRequest (fun _ => rfl) ⟨⟨⟨by decide, rfl⟩, ?_⟩, ?_⟩
    · rintro - - ⟨lock, found, -⟩
      cases found
    have known : ∀ n ≤ 5, (run timedStep (SwiftTXState.init, 0) (sampleRun.take (n + 1))
        ).1.mapTxLockReq.contains 1 = true := by decide +kernel
    exact ⟨⟨⟨by decide, trivial⟩, fun _ _ _ _ => known 0 (by decide)⟩,
      ⟨⟨by decide, trivial⟩, fun _ _ _ _ => known 1 (by decide)⟩,
      ⟨⟨by decide, trivial⟩, fun _ _ _ _ => known 2 (by decide)⟩,
      ⟨⟨by decide, trivial⟩, fun _ _ _ _ => known 3 (by decide)⟩,
      ⟨⟨by decide, trivial⟩, fun _ _ _ _ => known 4 (by decide)⟩,
      ⟨⟨by decide, trivial⟩, fun _ _ _ _ => known 5 (by decide)⟩, trivial⟩
  · exact ⟨⟨103, 1, [1, 2, 3, 4, 5, 6].map sampleVote, 4600, 1300⟩, by decide +kernel, by decide⟩

/-- Two requests with one input, both rejected by the mempool, and six votes for each. -/
def rejectedPair : List SwiftTXAction :=
  [.ix (sampleEnv false) (sampleTxOf 1), .ix (sampleEnv false) (sampleTxOf 2)] ++
    [1, 2, 3, 4, 5, 6].map (fun n => .txlvote (sampleEnv true) (sampleVote n)) ++
    [1, 2, 3, 4, 5, 6].map (fun n => .txlvote (sampleEnv true) ⟨⟨⟨150, n⟩, [], 0⟩, 2, 103, []⟩)

/-- Both locks complete on an empty request each, and claim the same output. -/
theorem rejectedPair_claims_twice :
    ¬ ∀ (txOf : UInt256 → CTransaction), (∀ hash, (txOf hash).getHash = hash) →
      ∀ start actions, AllSteps timedStep (Genuine txOf) (SwiftTXState.init, start) actions →
        AllSteps timedStep (LocksAgree txOf) (SwiftTXState.init, start) actions := by
  intro claim
  have agree := claim sampleTxOf (fun _ => rfl) 1000 rejectedPair ?_
  · let first := rejectedPair.take 13
    let last : SwiftTXAction := .txlvote (sampleEnv true) ⟨⟨⟨150, 6⟩, [], 0⟩, 2, 103, []⟩
    have agree : AllSteps timedStep (LocksAgree sampleTxOf) (SwiftTXState.init, 1000)
        (first ++ [last]) := agree
    have claimant : OneClaimant sampleTxOf
        (run timedStep (SwiftTXState.init, 1000) (first ++ [last])).1 1000 := by
      exact ((allSteps_append _ first [last]).mp agree).2.1.2.2
    have one : ((run timedStep (SwiftTXState.init, 1000) (first ++ [last])).1.mapTxLocks.lookup
        1).any (fun lock => lock.isComplete && decide (1000 < lock.nExpiration)) = true := by
      decide +kernel
    have two : ((run timedStep (SwiftTXState.init, 1000) (first ++ [last])).1.mapTxLocks.lookup
        2).any (fun lock => lock.isComplete && decide (1000 < lock.nExpiration)) = true := by
      decide +kernel
    obtain ⟨lock, found, ok⟩ := (Option.any_eq_true _ _).mp one
    obtain ⟨lock', found', ok'⟩ := (Option.any_eq_true _ _).mp two
    simp only [Bool.and_eq_true, decide_eq_true_eq] at ok ok'
    have same := claimant 1 2 lock lock' found found' ok.1 ok'.1 ok.2 ok'.2 ⟨7, 0⟩
      (by decide) (by decide)
    exact absurd same (by decide)
  · exact ⟨⟨by decide, rfl⟩, ⟨by decide, rfl⟩, ⟨by decide, trivial⟩, ⟨by decide, trivial⟩,
      ⟨by decide, trivial⟩, ⟨by decide, trivial⟩, ⟨by decide, trivial⟩, ⟨by decide, trivial⟩,
      ⟨by decide, trivial⟩, ⟨by decide, trivial⟩, ⟨by decide, trivial⟩, ⟨by decide, trivial⟩,
      ⟨by decide, trivial⟩, ⟨by decide, trivial⟩, trivial⟩

end Esbcoin.SwiftTX
