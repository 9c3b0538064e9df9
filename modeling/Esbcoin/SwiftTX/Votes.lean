import Mathlib.Logic.Function.Basic
import Mathlib.Tactic.SplitIfs
import Esbcoin.SwiftTX.Consensus

/-!
# Votes that fail validation

`txlvote` remembers a vote in `mapTxLockVote` before it checks it, under a hash that leaves out
height and signature. Two runs are compared: one with every message delivered, one without the votes
that fail a check.
-/

namespace Esbcoin.SwiftTX

open StepRun

/-- The part of the state that counting reads and writes. -/
abbrev counting (s : SwiftTXState) : SwiftTXState := { s with mapTxLockVote := ∅, effects := [] }

/-! ## Counting does not look at the remembered votes -/

section Counting

variable (env : SwiftTXEnv) (s : SwiftTXState)

theorem counting_emit (effect : SwiftTXEffect) : counting (s.emit effect) = counting s := rfl

variable (tx : CTransaction)

theorem counting_createNewLock :
    counting (createNewLock env s tx).1 = (createNewLock env (counting s) tx).1 := by
  simp only [createNewLock]
  split
  · rfl
  · split <;> rfl

theorem createNewLock_height : (createNewLock env s tx).2 = (lockHeight env tx).getD 0 := by
  unfold createNewLock
  cases lockHeight env tx with
  | none => rfl
  | some nBlockHeight => cases s.mapTxLocks.lookup tx.getHash <;> rfl

theorem counting_lockComplete (txHash : UInt256) :
    counting (lockComplete env s txHash) = counting (lockComplete env (counting s) txHash) := by
  cases found : findConflict s.mapLockedInputs
      ((s.mapTxLockReq.lookup txHash).getD CTransaction.empty) with
  | some hash =>
    simp only [lockComplete, checkForConflictingLocks, found]
    rfl
  | none =>
    simp only [lockComplete, checkForConflictingLocks, found, Bool.false_eq_true, ↓reduceIte]
    split_ifs <;> rfl

theorem counting_countVote (ctx : CConsensusVote) :
    counting (countVote env s ctx) = counting (countVote env (counting s) ctx) := by
  have lock : lockWithVote env (counting s) ctx = lockWithVote env s ctx := rfl
  simp only [countVote, lock]
  split_ifs
  · rw [counting_lockComplete]
  · rfl

theorem counting_relayVote (ctx : CConsensusVote) :
    counting (relayVote env s ctx) = counting (relayVote env (counting s) ctx) := by
  simp only [relayVote]
  split_ifs <;> rfl

theorem counting_ixAccepted (nBlockHeight : Int) :
    counting (ixAccepted env s tx nBlockHeight) =
      { counting s with mapTxLockReq := s.mapTxLockReq.insertNew tx.getHash tx } := by
  unfold ixAccepted doConsensusVote
  split <;> rfl

theorem counting_ixRejected :
    counting (ixRejected env s tx) = counting (ixRejected env (counting s) tx) := by
  cases found : findConflict (s.mapLockedInputs.insertNewAll tx.prevouts tx.getHash) tx with
  | some hash =>
    simp only [ixRejected, checkForConflictingLocks, found]
    split
    · rfl
    · split_ifs <;> rfl
  | none =>
    simp only [ixRejected, checkForConflictingLocks, found]
    split
    · rfl
    · split_ifs <;> rfl

theorem counting_ix : counting (ix env s tx) = counting (ix env (counting s) tx) := by
  have takenUp : ixTakenUp env (counting s) tx = ixTakenUp env s tx := rfl
  have verdict : acceptToMemoryPool env (counting s) tx = acceptToMemoryPool env s tx := rfl
  simp only [ix, takenUp, acceptToMemoryPool_createNewLock, verdict]
  split
  · split
    · rw [counting_ixAccepted, counting_ixAccepted, ← counting_createNewLock]
    · rw [counting_ixRejected, counting_createNewLock]
  · rfl

theorem counting_cleanLock (key : UInt256) (lock : CTransactionLock) :
    counting (cleanLock env s key lock) = counting (cleanLock env (counting s) key lock) := by
  simp only [cleanLock]
  split
  · split <;> rfl
  · rfl

theorem counting_checkBlock (block : CBlock) :
    counting (checkBlock env s block) = counting (checkBlock env (counting s) block) := by
  simp only [checkBlock, checkBlockLockScan]
  split <;> rfl

end Counting

/-! ## Which steps touch the remembered votes -/

section Slots

variable (env : SwiftTXEnv) (s : SwiftTXState)

@[simp] theorem createNewLock_mapTxLockVote (tx : CTransaction) :
    (createNewLock env s tx).1.mapTxLockVote = s.mapTxLockVote := by
  unfold createNewLock
  split
  · rfl
  · split <;> rfl

@[simp] theorem checkForConflictingLocks_mapTxLockVote (tx : CTransaction) :
    (checkForConflictingLocks env s tx).1.mapTxLockVote = s.mapTxLockVote := by
  unfold checkForConflictingLocks
  split <;> rfl

@[simp] theorem lockComplete_mapTxLockVote (txHash : UInt256) :
    (lockComplete env s txHash).mapTxLockVote = s.mapTxLockVote := by
  simp only [lockComplete]
  split
  · simp
  · split <;> simp [SwiftTXState.emit]

@[simp] theorem countVote_mapTxLockVote (ctx : CConsensusVote) :
    (countVote env s ctx).mapTxLockVote = s.mapTxLockVote := by
  simp only [countVote]
  split
  · simp
  · rfl

@[simp] theorem relayVote_mapTxLockVote (ctx : CConsensusVote) :
    (relayVote env s ctx).mapTxLockVote = s.mapTxLockVote := by
  simp only [relayVote]
  split
  · rfl
  · split <;> rfl

@[simp] theorem ixRejected_mapTxLockVote (tx : CTransaction) :
    (ixRejected env s tx).mapTxLockVote = s.mapTxLockVote := by
  simp only [ixRejected]
  split
  · rfl
  · split
    · split <;> simp [SwiftTXState.emit]
    · rfl

theorem ixAccepted_mapTxLockVote (tx : CTransaction) (nBlockHeight : Int) :
    (ixAccepted env s tx nBlockHeight).mapTxLockVote = match ownVote env tx nBlockHeight with
      | some ctx => s.mapTxLockVote.insert ctx.getHash ctx
      | none => s.mapTxLockVote := by
  cases own : ownVote env tx nBlockHeight <;> simp only [ixAccepted, doConsensusVote, own] <;> rfl

/-- The vote slots that a dropped lock takes away. -/
def cleanedSlots (lock : CTransactionLock) : List UInt256 :=
  if env.time > lock.nExpiration ∧ s.mapTxLockReq.contains lock.txHash then
    lock.vecConsensusVotes.map CConsensusVote.getHash
  else []

theorem lookup_slots_cleanLock (key k : UInt256) (lock : CTransactionLock) :
    (cleanLock env s key lock).mapTxLockVote.lookup k =
      if k ∈ cleanedSlots env s lock then none else s.mapTxLockVote.lookup k := by
  simp only [cleanLock, cleanedSlots]
  by_cases expired : env.time > lock.nExpiration
  · cases request : s.mapTxLockReq.lookup lock.txHash with
    | none => simp [expired, AssocMap.contains, request]
    | some tx => simp [expired, AssocMap.contains, request, AssocMap.lookup_eraseAll]
  · simp [expired]

theorem checkBlock_mapTxLockVote (block : CBlock) :
    (checkBlock env s block).mapTxLockVote = s.mapTxLockVote := by
  unfold checkBlock
  split <;> rfl

end Slots

/-! ## The two runs -/

/-- The votes that failed a check when they were delivered are left out. -/
def dropInvalid (actions : List SwiftTXAction) : List SwiftTXAction :=
  actions.filter (fun a =>
    match a with
    | .txlvote env ctx => voteValid env ctx
    | _ => true)

/-- At which hashes the last vote stored had failed a check. -/
def failedSlots (s : SwiftTXState) (failed : UInt256 → Bool) : SwiftTXAction → UInt256 → Bool
  | .txlvote env ctx =>
      if env.handlesMessages && !s.mapTxLockVote.contains ctx.getHash then
        Function.update failed ctx.getHash (!voteValid env ctx)
      else failed
  | .ix env tx =>
      if ixTakenUp env s tx && acceptToMemoryPool env s tx then
        match ownVote env tx ((lockHeight env tx).getD 0) with
        | some ctx => Function.update failed ctx.getHash false
        | none => failed
      else failed
  | _ => failed

/-- A step, with the record of where the last vote stored had failed a check. -/
def watchStep (w : SwiftTXState × (UInt256 → Bool)) (a : SwiftTXAction) :
    SwiftTXState × (UInt256 → Bool) :=
  (swiftTXStep w.1 a, failedSlots w.1 w.2 a)

/-- A valid vote delivered in this step does not find its slot held by a vote that failed
a check. -/
def NotShadowed (w : SwiftTXState × (UInt256 → Bool)) : SwiftTXAction → Prop
  | .txlvote env ctx =>
      env.handlesMessages = true → voteValid env ctx = true →
        w.1.mapTxLockVote.contains ctx.getHash = true → w.2 ctx.getHash = false
  | _ => True

/-- The state `s` of the full run beside the state `t` of the run without the votes that
failed: the same counts, and `t` remembers what `s` does except at the failed slots. -/
structure Beside (failed : UInt256 → Bool) (s t : SwiftTXState) : Prop where
  counted : counting s = counting t
  slots : ∀ k, t.mapTxLockVote.lookup k = if failed k then none else s.mapTxLockVote.lookup k

variable {failed : UInt256 → Bool} {t : SwiftTXState}

theorem Beside.locks {s : SwiftTXState} (h : Beside failed s t) : s.mapTxLocks = t.mapTxLocks := by
  show (counting s).mapTxLocks = (counting t).mapTxLocks
  rw [h.counted]

/-- A vote that fails a check leaves the run without it where it was. -/
theorem Beside.drop {s : SwiftTXState} (h : Beside failed s t) {env : SwiftTXEnv}
    {ctx : CConsensusVote} (invalid : voteValid env ctx = false) :
    Beside (failedSlots s failed (.txlvote env ctx)) (txlvote env s ctx) t := by
  simp only [failedSlots, txlvote]
  cases handled : env.handlesMessages with
  | false => simpa using h
  | true =>
    cases held : s.mapTxLockVote.contains ctx.getHash with
    | true => simpa using h
    | false =>
      obtain ⟨effects, processed⟩ := processConsensusVote_of_invalid invalid
        { s with mapTxLockVote := s.mapTxLockVote.insert ctx.getHash ctx }
      simp only [processed, invalid, Bool.not_true, Bool.false_eq_true, ↓reduceIte,
        Bool.not_false, Bool.and_self]
      refine ⟨h.counted, fun k => ?_⟩
      by_cases equal : k = ctx.getHash
      · subst equal
        have free := (AssocMap.contains_eq_false_iff _ _).mp held
        simp [h.slots, free]
      · simp [h.slots, equal]

/-- A step other than a vote that fails keeps the two runs beside each other, unless a
valid vote is shadowed. -/
theorem Beside.step {failed : UInt256 → Bool} {s t : SwiftTXState} (h : Beside failed s t)
    {a : SwiftTXAction} (clear : NotShadowed (s, failed) a)
    (kept : ∀ env ctx, a = .txlvote env ctx → voteValid env ctx = true) :
    Beside (failedSlots s failed a) (swiftTXStep s a) (swiftTXStep t a) := by
  cases a with
  | ix env tx =>
    have takenUp : ixTakenUp env t tx = ixTakenUp env s tx := by
      have := congrArg (fun u => ixTakenUp env u tx) h.counted
      exact this.symm
    have verdict : acceptToMemoryPool env t tx = acceptToMemoryPool env s tx := by
      have := congrArg (fun u => acceptToMemoryPool env u tx) h.counted
      exact this.symm
    refine ⟨?_, ?_⟩
    · show counting (ix env s tx) = counting (ix env t tx)
      rw [counting_ix, h.counted, ← counting_ix]
    intro k
    simp only [swiftTXStep, ix, failedSlots, takenUp, acceptToMemoryPool_createNewLock, verdict]
    cases hTaken : ixTakenUp env s tx with
    | false => simpa using h.slots k
    | true =>
      cases hAccepted : acceptToMemoryPool env s tx with
      | false => simpa using h.slots k
      | true =>
        simp only [↓reduceIte, Bool.and_self, ixAccepted_mapTxLockVote,
          createNewLock_mapTxLockVote, createNewLock_height]
        cases own : ownVote env tx ((lockHeight env tx).getD 0) with
        | none => exact h.slots k
        | some ctx =>
          by_cases equal : k = ctx.getHash
          · subst equal; simp
          · simpa [equal, AssocMap.lookup_insert_eq] using h.slots k
  | txlvote env ctx =>
    have valid := kept env ctx rfl
    have same : t.mapTxLockVote.contains ctx.getHash
        = (s.mapTxLockVote.contains ctx.getHash && !failed ctx.getHash) := by
      simp only [AssocMap.contains, h.slots]
      cases failed ctx.getHash <;> simp
    simp only [swiftTXStep, failedSlots, txlvote]
    cases handled : env.handlesMessages with
    | false => simpa using h
    | true =>
      cases held : s.mapTxLockVote.contains ctx.getHash with
      | true =>
        have passed := clear handled valid held
        simpa [same, held, show failed ctx.getHash = false from passed] using h
      | false =>
        simp only [same, held, Bool.false_and, Bool.not_true, Bool.false_eq_true, ↓reduceIte,
          Bool.not_false, Bool.and_self, processConsensusVote_of_valid valid, valid]
        refine ⟨?_, ?_⟩
        · rw [counting_relayVote, counting_countVote]
          conv => rhs; rw [counting_relayVote, counting_countVote]
          rw [h.counted]
        intro k
        by_cases equal : k = ctx.getHash
        · subst equal; simp
        · simpa [equal, AssocMap.lookup_insert_eq] using h.slots k
  | relayTransactionLockReq env tx =>
    refine ⟨?_, ?_⟩
    · simp only [swiftTXStep, relayTransactionLockReq, counting_emit]
      rw [counting_createNewLock, counting_createNewLock]
      exact congrArg (fun u => (createNewLock env
        { u with mapTxLockReq := u.mapTxLockReq.insertNew tx.getHash tx } tx).1) h.counted
    · intro k
      simpa [swiftTXStep, relayTransactionLockReq, SwiftTXState.emit, failedSlots]
        using h.slots k
  | cleanTransactionLocksList env =>
    have round : ∀ (u v : SwiftTXState) (key : UInt256) (lock : CTransactionLock),
        Beside failed u v → Beside failed (cleanLock env u key lock) (cleanLock env v key lock) := by
      intro u v key lock h
      refine ⟨?_, fun k => ?_⟩
      · rw [counting_cleanLock, h.counted, ← counting_cleanLock]
      have sameSlots : cleanedSlots env v lock = cleanedSlots env u lock := by
        have := congrArg (fun w => cleanedSlots env w lock) h.counted
        exact this.symm
      rw [lookup_slots_cleanLock, lookup_slots_cleanLock, sameSlots, h.slots]
      split_ifs <;> rfl
    have rounds : ∀ (entries : List (Sigma fun _ : UInt256 => CTransactionLock))
        (u v : SwiftTXState), Beside failed u v →
        Beside failed (entries.foldl (fun s entry => cleanLock env s entry.1 entry.2) u)
          (entries.foldl (fun s entry => cleanLock env s entry.1 entry.2) v) := by
      intro entries
      induction entries with
      | nil => intro u v h; exact h
      | cons entry entries ih => intro u v h; exact ih _ _ (round u v entry.1 entry.2 h)
    simp only [swiftTXStep, failedSlots, cleanTransactionLocksList, ← h.locks]
    split
    · exact h
    · exact rounds _ _ _ h
  | checkBlock env block =>
    refine ⟨?_, ?_⟩
    · show counting (checkBlock env s block) = counting (checkBlock env t block)
      rw [counting_checkBlock, h.counted, ← counting_checkBlock]
    · intro k
      simpa [swiftTXStep, checkBlock_mapTxLockVote, failedSlots] using h.slots k

/-! ## Exactly when the failed votes do not count -/

theorem beside_refl (s : SwiftTXState) : Beside (fun _ => false) s s :=
  ⟨rfl, fun _ => by simp⟩

/-- A valid vote that finds its slot held by a failed one is counted in one run only. -/
theorem locks_ne_of_shadowed {s : SwiftTXState} (h : Beside failed s t) {a : SwiftTXAction}
    (shadowed : ¬ NotShadowed (s, failed) a) :
    (swiftTXStep s a).mapTxLocks ≠ (swiftTXStep t a).mapTxLocks := by
  cases a with
  | txlvote env ctx =>
    simp only [NotShadowed, Classical.not_imp, Bool.not_eq_false] at shadowed
    obtain ⟨handled, valid, held, bad⟩ := shadowed
    have free : t.mapTxLockVote.contains ctx.getHash = false := by
      rw [AssocMap.contains_eq_false_iff, h.slots, if_pos bad]
    intro same
    have votes := votesOf_congr same ctx.txHash
    simp only [swiftTXStep, txlvote, handled, held, free, processConsensusVote_of_valid valid,
      Bool.not_true, Bool.false_eq_true, ↓reduceIte] at votes
    rw [votesOf_congr (relayVote_mapTxLocks _ _ _), votesOf_countVote, if_pos rfl] at votes
    have before : votesOf s ctx.txHash = votesOf t ctx.txHash := votesOf_congr h.locks _
    have counted := congrArg List.length votes
    rw [before, List.length_append, List.length_singleton] at counted
    have unchanged : (votesOf { t with
        mapTxLockVote := t.mapTxLockVote.insert ctx.getHash ctx } ctx.txHash).length =
        (votesOf t ctx.txHash).length := rfl
    omega
  | ix env tx => exact absurd trivial shadowed
  | relayTransactionLockReq env tx => exact absurd trivial shadowed
  | cleanTransactionLocksList env => exact absurd trivial shadowed
  | checkBlock env block => exact absurd trivial shadowed

theorem forall_prefix_cons {α : Type*} {P : List α → Prop} (a : α) (rest : List α) :
    (∀ first, first <+: a :: rest → P first) ↔ P [] ∧ ∀ first, first <+: rest → P (a :: first) := by
  simp only [List.prefix_cons_iff]
  constructor
  · intro h
    exact ⟨h [] (.inl rfl), fun first isPrefix => h _ (.inr ⟨first, rfl, isPrefix⟩)⟩
  · rintro ⟨empty, longer⟩ first (rfl | ⟨first, rfl, isPrefix⟩)
    · exact empty
    · exact longer first isPrefix

theorem Beside.votesAlike_iff {s : SwiftTXState} (h : Beside failed s t)
    (actions : List SwiftTXAction) :
    (∀ first, first <+: actions →
      (run swiftTXStep s first).mapTxLocks = (run swiftTXStep t (dropInvalid first)).mapTxLocks) ↔
      AllSteps watchStep NotShadowed (s, failed) actions := by
  induction actions generalizing s t failed with
  | nil => simpa [dropInvalid] using h.locks
  | cons a rest ih =>
    rw [forall_prefix_cons, allSteps_cons]
    by_cases kept : ∀ env ctx, a = .txlvote env ctx → voteValid env ctx = true
    · have keeps : ∀ first, dropInvalid (a :: first) = a :: dropInvalid first := by
        intro first
        apply List.filter_cons_of_pos
        cases a with
        | txlvote env ctx => exact kept env ctx rfl
        | _ => rfl
      simp only [keeps, run_cons]
      by_cases clear : NotShadowed (s, failed) a
      · rw [ih (h.step clear kept)]
        exact ⟨fun both => ⟨clear, both.2⟩, fun both => ⟨h.locks, both.2⟩⟩
      constructor
      · rintro ⟨-, alike⟩
        exact absurd (alike [] (List.nil_prefix)) (locks_ne_of_shadowed h clear)
      · rintro ⟨notShadowed, -⟩
        exact absurd notShadowed clear
    · push Not at kept
      obtain ⟨env, ctx, rfl, invalid⟩ := kept
      rw [ne_eq, Bool.not_eq_true] at invalid
      have drops : ∀ first, dropInvalid (.txlvote env ctx :: first) = dropInvalid first := by
        intro first
        apply List.filter_cons_of_neg
        simpa using invalid
      simp only [drops, run_cons]
      have beside := h.drop invalid
      rw [show txlvote env s ctx = swiftTXStep s (.txlvote env ctx) from rfl] at beside
      rw [ih beside]
      constructor
      · rintro ⟨-, rest⟩
        refine ⟨fun _ valid => ?_, rest⟩
        rw [invalid] at valid
        cases valid
      · rintro ⟨-, rest⟩
        exact ⟨h.locks, rest⟩

/-- The failed votes have no influence on any lock, at any point of the run, exactly when no
valid vote is delivered while its slot is held by a vote that failed a check. -/
theorem countsAlike_iff (s : SwiftTXState) (actions : List SwiftTXAction) :
    (∀ first, first <+: actions →
      (run swiftTXStep s first).mapTxLocks = (run swiftTXStep s (dropInvalid first)).mapTxLocks) ↔
      AllSteps watchStep NotShadowed (s, fun _ => false) actions :=
  (beside_refl s).votesAlike_iff actions

def signatureEnv : SwiftTXEnv :=
  { sampleEnv true with verifyMessage := fun _ vchSig _ => vchSig == [1] }

/-- Anyone can send this in the name of masternode `n`. -/
def forgedVote (n : UInt32) : CConsensusVote := sampleVote n

def signedVote (n : UInt32) : CConsensusVote :=
  { sampleVote n with vchMasterNodeSignature := [1] }

/-- A forged vote keeps the masternode's own vote from being counted. -/
theorem forgedVote_shadows_signedVote :
    ¬ ∀ s actions first, first <+: actions →
      (run swiftTXStep s first).mapTxLocks =
        (run swiftTXStep s (dropInvalid first)).mapTxLocks := by
  intro claim
  have same := claim SwiftTXState.init
    [.txlvote signatureEnv (forgedVote 1), .txlvote signatureEnv (signedVote 1)] _
    (List.prefix_refl _)
  have counted := congrArg (fun locks => (locks.lookup 1).isSome) same
  revert counted
  decide +kernel

end Esbcoin.SwiftTX
