import Esbcoin.Masternode.Payments

/-!
# The last vote of a masternode

`CanVote` remembers for every masternode and level the last height it voted for, and refuses a vote
for that height or one below it. A vote that is refused later may have been remembered already.
-/

namespace Esbcoin.Payments

open StepRun

/-- The key of `mapMasternodesLastVote`. -/
def CMasternodePaymentWinner.key (winner : CMasternodePaymentWinner) : UInt256 :=
  voteKey winner.vinMasternode.prevout winner.payeeLevel

/-- `mapMasternodesLastVote` has the height of the winner, or a later one, under its key. -/
def Recorded (s : CMasternodePayments) (winner : CMasternodePaymentWinner) : Prop :=
  ∃ last, s.mapMasternodesLastVote.lookup winner.key = some last ∧ winner.nBlockHeight ≤ last

instance (s : CMasternodePayments) (winner : CMasternodePaymentWinner) :
    Decidable (Recorded s winner) :=
  match h : s.mapMasternodesLastVote.lookup winner.key with
  | none => .isFalse (by rintro ⟨last, found, -⟩; rw [h] at found; cases found)
  | some last =>
    if later : winner.nBlockHeight ≤ last then .isTrue ⟨last, h, later⟩
    else .isFalse (by
      rintro ⟨last', found, later'⟩
      rw [h] at found
      cases found
      exact later later')

/-- The tables with the winner's height under its key. -/
def record (s : CMasternodePayments) (winner : CMasternodePaymentWinner) : CMasternodePayments :=
  { s with mapMasternodesLastVote :=
      s.mapMasternodesLastVote.insert winner.key winner.nBlockHeight }

theorem canVote_eq (s : CMasternodePayments) (winner : CMasternodePaymentWinner) :
    canVote s winner.vinMasternode.prevout winner.nBlockHeight winner.payeeLevel =
      if Recorded s winner then (s, false) else (record s winner, true) := by
  unfold canVote
  cases found : s.mapMasternodesLastVote.lookup
      (voteKey winner.vinMasternode.prevout winner.payeeLevel) with
  | none =>
    have fresh : ¬ Recorded s winner := by
      rintro ⟨last, found', -⟩
      cases found.symm.trans found'
    simp only [found, if_neg fresh]
    rfl
  | some last =>
    by_cases later : winner.nBlockHeight ≤ last
    · have recorded : Recorded s winner := ⟨last, found, later⟩
      simp only [found, ge_iff_le, later, if_pos recorded, ↓reduceIte]
    have fresh : ¬ Recorded s winner := by
      rintro ⟨last', found', later'⟩
      cases found.symm.trans found'
      exact later later'
    simp only [found, ge_iff_le, later, if_neg fresh, ↓reduceIte]
    rfl

theorem addWinningMasternode_of_fresh {sha : WinnerHash} {env : PaymentsEnv}
    {s : CMasternodePayments} {winner : CMasternodePaymentWinner}
    (fresh : s.mapMasternodePayeeVotes.contains (winner.getHash sha) = false) :
    addWinningMasternode sha env s winner =
      if (env.getBlockHash (winner.nBlockHeight - 100)).isSome then
        (storeWinner sha s winner, true)
      else (s, false) := by
  unfold addWinningMasternode
  cases block : env.getBlockHash (winner.nBlockHeight - 100) with
  | none => rfl
  | some hash => simp only [fresh, Bool.false_eq_true, Option.isSome_some, ↓reduceIte]

section Receive

variable (sha : WinnerHash) (s : CMasternodePayments) (m : WinnerMessage)

/-- The winner of a message that comes as far as `CanVote`. -/
def reached : Option CMasternodePaymentWinner :=
  if m.handled then beforeCanVote sha m.env m.slack s m.winner else none

/-- The checks of a winner behind `CanVote`: its signature, and the block its rank comes from. -/
def afterCanVote (env : PaymentsEnv) (winner : CMasternodePaymentWinner) : Bool :=
  winner.signatureValid env && (env.getBlockHash (winner.nBlockHeight - 100)).isSome

variable {sha s m}

theorem fresh_of_reached {winner : CMasternodePaymentWinner}
    (h : reached sha s m = some winner) :
    s.mapMasternodePayeeVotes.contains (winner.getHash sha) = false := by
  unfold reached beforeCanVote at h
  split at h
  · split at h
    · cases h
    split at h
    · cases h
    rename_i fresh
    split at h
    · cases h
    split at h
    · cases h
    · cases h
      simpa using fresh
  · cases h

variable (sha s m)

/-- What a message does to the tables. -/
theorem receive_eq :
    receive sha s m = match reached sha s m with
      | none => (s, false)
      | some winner =>
        if Recorded s winner then
          if !m.binding && afterCanVote m.env winner then (storeWinner sha s winner, true)
          else (s, false)
        else
          if afterCanVote m.env winner then (storeWinner sha (record s winner) winner, true)
          else (record s winner, false) := by
  have fresh := fun winner => @fresh_of_reached sha s m winner
  unfold receive
  unfold reached at fresh ⊢
  by_cases handled : m.handled = true
  · simp only [handled, ↓reduceIte, receiveWinner] at fresh ⊢
    cases before : beforeCanVote sha m.env m.slack s m.winner with
    | none => rfl
    | some winner =>
      have new := fresh winner before
      have new' : (record s winner).mapMasternodePayeeVotes.contains (winner.getHash sha) =
          false := new
      simp only [canVote_eq, afterCanVote]
      by_cases recorded : Recorded s winner
      · simp only [recorded, ↓reduceIte, Bool.not_false, Bool.true_and,
          addWinningMasternode_of_fresh new]
        by_cases binds : m.binding = true
        · simp [binds]
        · by_cases signed : winner.signatureValid m.env = true
          · simp [binds, signed]
          · simp [binds, signed]
      · simp only [recorded, ↓reduceIte, Bool.not_true, Bool.false_and, Bool.false_eq_true,
          addWinningMasternode_of_fresh new']
        by_cases signed : winner.signatureValid m.env = true
        · simp [signed]
        · simp [signed]
  · simp only [handled, Bool.false_eq_true, ↓reduceIte]

end Receive

theorem recorded_record (s : CMasternodePayments) (winner : CMasternodePaymentWinner) :
    Recorded (record s winner) winner :=
  ⟨winner.nBlockHeight, AList.lookup_insert _, Int.le_refl _⟩

/-- `record` only moves heights up. -/
theorem Recorded.record {s : CMasternodePayments} {winner other : CMasternodePaymentWinner}
    (fresh : ¬ Recorded s other) (h : Recorded s winner) : Recorded (record s other) winner := by
  obtain ⟨last, found, later⟩ := h
  by_cases equal : winner.key = other.key
  · refine ⟨other.nBlockHeight, by rw [equal]; exact AList.lookup_insert _, ?_⟩
    by_contra below
    exact fresh ⟨last, by rw [← equal]; exact found, by omega⟩
  · exact ⟨last, (AList.lookup_insert_ne equal).trans found, later⟩

section Refused

variable (sha : WinnerHash)

/-- A step of the tables: one winner comes in. -/
def receiveStep (s : CMasternodePayments) (m : WinnerMessage) : CMasternodePayments :=
  (receive sha s m).1

/-- The winner of the message is not added. -/
def Rejected (s : CMasternodePayments) (m : WinnerMessage) : Prop := (receive sha s m).2 = false

instance (s : CMasternodePayments) (m : WinnerMessage) : Decidable (Rejected sha s m) :=
  inferInstanceAs (Decidable (_ = false))

/-- The message does not come as far as `CanVote`, or `CanVote` refuses it. -/
def Harmless (s : CMasternodePayments) (m : WinnerMessage) : Prop :=
  ∀ winner, reached sha s m = some winner → Recorded s winner

/-- `s'` has the tables of `s`, and takes every message as `s` does. -/
structure LeavesVotes (s s' : CMasternodePayments) : Prop where
  mapMasternodesLastVote : s'.mapMasternodesLastVote = s.mapMasternodesLastVote
  mapMasternodePayeeVotes : s'.mapMasternodePayeeVotes = s.mapMasternodePayeeVotes
  mapMasternodeBlocks : s'.mapMasternodeBlocks = s.mapMasternodeBlocks
  verdicts : ∀ m, (receive sha s' m).2 = (receive sha s m).2

variable {sha} {s : CMasternodePayments} {m : WinnerMessage}

variable {winner : CMasternodePaymentWinner}

theorem Recorded.receiveStep (h : Recorded s winner) : Recorded (receiveStep sha s m) winner := by
  unfold Payments.receiveStep
  rw [receive_eq]
  cases reached sha s m with
  | none => exact h
  | some other =>
    by_cases recorded : Recorded s other
    · simp only [recorded, ↓reduceIte]
      split
      · exact h
      · exact h
    simp only [recorded, ↓reduceIte]
    split
    · exact h.record recorded
    · exact h.record recorded

theorem Recorded.run (h : Recorded s winner) (ms : List WinnerMessage) :
    Recorded (StepRun.run (Payments.receiveStep sha) s ms) winner := by
  induction ms generalizing s with
  | nil => exact h
  | cons m ms ih => exact ih h.receiveStep

/-- A message that comes to `CanVote` is recorded. -/
theorem recorded_receiveStep (arrives : reached sha s m = some winner) :
    Recorded (receiveStep sha s m) winner := by
  by_cases recorded : Recorded s winner
  · exact recorded.receiveStep
  unfold receiveStep
  rw [receive_eq, arrives]
  simp only [recorded, ↓reduceIte]
  split
  · exact recorded_record s winner
  · exact recorded_record s winner

theorem receiveStep_of_harmless (rejected : Rejected sha s m) (harmless : Harmless sha s m) :
    receiveStep sha s m = s := by
  unfold Rejected at rejected
  unfold receiveStep
  rw [receive_eq] at rejected ⊢
  cases arrives : reached sha s m with
  | none => rfl
  | some winner =>
    simp only [arrives, harmless winner arrives, ↓reduceIte] at rejected ⊢
    split at rejected
    · cases rejected
    · rename_i refused
      rw [if_neg refused]

/-- Rejected messages leave the tables alone exactly when none of them comes to a `CanVote` that
lets it pass. -/
theorem leavesVotes_iff (sha : WinnerHash) (s : CMasternodePayments) (ms : List WinnerMessage)
    (rejected : AllSteps (receiveStep sha) (Rejected sha) s ms) :
    LeavesVotes sha s (run (receiveStep sha) s ms) ↔
      AllSteps (receiveStep sha) (Harmless sha) s ms := by
  constructor
  · intro leaves
    induction ms generalizing s with
    | nil => trivial
    | cons m ms ih =>
      have harmless : Harmless sha s m := by
        intro winner arrives
        have recorded : Recorded (run (receiveStep sha) s (m :: ms)) winner :=
          (recorded_receiveStep arrives).run ms
        unfold Recorded at recorded ⊢
        rwa [leaves.mapMasternodesLastVote] at recorded
      have same := receiveStep_of_harmless rejected.1 harmless
      refine ⟨harmless, ?_⟩
      rw [run_cons, same] at leaves
      have rest := rejected.2
      rw [same] at rest ⊢
      exact ih s rest leaves
  · intro harmless
    have same : run (receiveStep sha) s ms = s := by
      induction ms with
      | nil => rfl
      | cons m ms ih =>
        have here := receiveStep_of_harmless rejected.1 harmless.1
        have later := rejected.2
        have harmlessLater := harmless.2
        rw [here] at later harmlessLater
        rw [run_cons, here]
        exact ih later harmlessLater
    rw [same]
    exact ⟨rfl, rfl, rfl, fun _ => rfl⟩

end Refused

/-- Two masternodes of level 1, each of which may vote; a signature is good if it is `[1]`. -/
def paymentsEnv : PaymentsEnv where
  chainHeight := 1000
  vMasternodes := [⟨⟨⟨50, 0⟩, [], 0⟩, [1], [], true, 5000 * COIN, 0, 70225⟩,
    ⟨⟨⟨50, 1⟩, [], 0⟩, [1, 2], [], true, 5000 * COIN, 0, 70225⟩]
  getMasternodeRank := fun _ _ _ => 1
  getBlockHash := fun _ => some 0
  verifyMessage := fun _ vchSig _ _ _ => vchSig == [1]

def sampleSha : WinnerHash := fun payee nBlockHeight prevout =>
  prevout.hash + BitVec.ofNat 256 prevout.n.toNat + BitVec.ofInt 256 (nBlockHeight * 8) +
    BitVec.ofNat 256 (payee.length * 2)

def sampleWinner (nBlockHeight : Int) (payee : CScript) (vchSig : List UInt8) :
    CMasternodePaymentWinner :=
  ⟨⟨⟨50, 0⟩, [], 0⟩, nBlockHeight, payee, vchSig, 0⟩

/-- A winner with an unknown payee leaves the tables alone. -/
theorem unknownPayee_leavesVotes :
    LeavesVotes sampleSha .init (run (receiveStep sampleSha) .init
      [.mnw paymentsEnv (sampleWinner 1000 [7] [])]) := by
  have rejected : AllSteps (receiveStep sampleSha) (Rejected sampleSha) .init
      [.mnw paymentsEnv (sampleWinner 1000 [7] [])] := ⟨by decide, trivial⟩
  refine (leavesVotes_iff sampleSha .init _ rejected).mpr ⟨?_, trivial⟩
  intro winner arrives
  have none : reached sampleSha .init (.mnw paymentsEnv (sampleWinner 1000 [7] [])) = none := by
    decide
  rw [none] at arrives
  cases arrives

/-- After a forged vote for a height the true one is refused. -/
theorem forgedVote_blocks :
    ¬ ∀ (sha : WinnerHash) (s : CMasternodePayments) (ms : List WinnerMessage),
      AllSteps (receiveStep sha) (Rejected sha) s ms →
        LeavesVotes sha s (run (receiveStep sha) s ms) := by
  intro claim
  have leaves := claim sampleSha .init [.mnw paymentsEnv (sampleWinner 1000 [1] [])]
    ⟨by decide, trivial⟩
  have same := leaves.verdicts (.mnw paymentsEnv (sampleWinner 1000 [1] [1]))
  exact absurd same (by decide)

end Esbcoin.Payments
