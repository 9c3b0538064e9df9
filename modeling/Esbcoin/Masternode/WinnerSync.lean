import Esbcoin.Masternode.BlockPayees
import Esbcoin.Masternode.VoteTable

/-!
# The votes a fresh node is sent

Rendering of the pack of winners that `CMasternodePayments::Sync` sends
(`src/masternode-payments.cpp:787-845`): it goes through `mapMasternodePayeeVotes` in the order of
the hashes and leaves out, of the votes for heights up to the tip, those below a window and those
whose payee is the one it noted last under the product of height and level. The pack is taken by a
node with empty tables, the same chain and the same masternodes.
-/

namespace Esbcoin.Payments

open StepRun

section Sync

variable (env : RanksEnv) (mns : MasternodeList)

/-- `mn_counts[mnlevel]` of `Sync` (`masternodeman.cpp:464-487`,
`masternode-payments.cpp:800-806`): a level that is no payment level has an entry only where a
masternode has it. -/
def mnCount (mnlevel : Nat) : Int :=
  let enabled := mns.vMasternodes.countP fun mn => mn.level env.chainHeight == mnlevel &&
    decide (mn.protocolVersion ≥ activeProtocol env.chainHeight) && mn.isEnabled
  if mnlevel ∈ CMasternode.levels ∨ 0 < enabled then fiveQuarters enabled + 1 else 0

/-- Is a winner below the window (`masternode-payments.cpp:822`)? The comparison is one of
unsigned numbers. -/
def belowSync (winner : CMasternodePaymentWinner) : Bool :=
  decide (winner.nBlockHeight % 2 ^ 32 <
    (env.chainHeight - mnCount env mns winner.payeeLevel) % 2 ^ 32)

/-- `nWinnerIndex` (`masternode-payments.cpp:826`), up to the wrapping of an `int`. -/
def winnerIndex (winner : CMasternodePaymentWinner) : Int :=
  winner.nBlockHeight * winner.payeeLevel % 2 ^ 32

/-- The loop of `Sync` (`masternode-payments.cpp:818-844`), with `umapVotes`: the winners that are
pushed. -/
def pushVotes : AssocMap Int CScript → List CMasternodePaymentWinner → List CMasternodePaymentWinner
  | _, [] => []
  | umapVotes, winner :: winners =>
    if winner.nBlockHeight ≤ env.chainHeight then
      if belowSync env mns winner then pushVotes umapVotes winners
      else if umapVotes.lookup (winnerIndex winner) = some winner.payee then
        pushVotes umapVotes winners
      else winner :: pushVotes (umapVotes.insert (winnerIndex winner) winner.payee) winners
    else winner :: pushVotes umapVotes winners

/-- The winners of `mapMasternodePayeeVotes` in the order of their hashes. -/
def votesInOrder (s : CMasternodePayments) : List CMasternodePaymentWinner :=
  (s.mapMasternodePayeeVotes.entries.insertionSort fun a b => a.1.toNat ≤ b.1.toNat).map Sigma.snd

/-- `CMasternodePayments::Sync` (`masternode-payments.cpp:787-845`), whose test for the fork
always succeeds (`consensusForkProto_le_activeProtocol`): the winners of the pack, if one is
sent. -/
def sync (s : CMasternodePayments) : Option (List CMasternodePaymentWinner) :=
  if !env.locked || decide (env.chainHeight < 0) then none
  else some (pushVotes env mns ∅ (votesInOrder s))

/-- What a node with this chain and these masternodes answers while it handles the pack of a peer
that has the active protocol. -/
def packEnv (verifyMessage : List UInt8 → List UInt8 → COutPoint → Int → CScript → Bool) :
    PaymentsEnv where
  nVersion := activeProtocol env.chainHeight
  chainHeight := env.chainHeight
  vMasternodes := mns.vMasternodes
  getMasternodeRank := fun vin nBlockHeight minProtocol =>
    getMasternodeRank env mns vin nBlockHeight minProtocol true
  getBlockHash := fun nBlockHeight =>
    (getBlockHash env.chain env.mapCacheBlockHashes nBlockHeight).1
  verifyMessage

end Sync

/-- The height is in the window for which both nodes should have the votes of a level: that of
`mnwp` (`masternode-payments.cpp:266-270`). -/
def InSyncWindow (env : RanksEnv) (mns : MasternodeList) (mnlevel : Nat) (nBlockHeight : Int) :
    Prop :=
  env.chainHeight - fiveQuarters (queueCount env mns mnlevel) - 1 ≤ nBlockHeight ∧
    nBlockHeight ≤ env.chainHeight + 20

/-- With the tables `s` and `s'`, two nodes find the same payments, the same payees of the window,
and the same masternodes to be paid next. -/
structure TablesAgree (env : RanksEnv) (mns : MasternodeList) (s s' : CMasternodePayments) :
    Prop where
  lastPaid : ∀ mn ∈ mns.vMasternodes,
    getLastPaid { env with payments := s' } mns.vMasternodes mn =
      getLastPaid { env with payments := s } mns.vMasternodes mn
  blockPayee : ∀ mnlevel ∈ CMasternode.levels, ∀ nBlockHeight,
    InSyncWindow env mns mnlevel nBlockHeight →
      getBlockPayee s' nBlockHeight mnlevel = getBlockPayee s nBlockHeight mnlevel
  next : ∀ mnlevel ∈ CMasternode.levels, ∀ nBlockHeight fFilterSigTime,
    getNextMasternodeInQueueForPayment { env with payments := s' } mns nBlockHeight mnlevel
        fFilterSigTime =
      getNextMasternodeInQueueForPayment { env with payments := s } mns nBlockHeight mnlevel
        fFilterSigTime

/-! ## Votes that are carried over -/

section Carried

variable (env : RanksEnv) (mns : MasternodeList)

/-- The votes that `Sync` thins out: for heights up to the tip, and in its window. -/
def isThinned (winner : CMasternodePaymentWinner) : Bool :=
  decide (winner.nBlockHeight ≤ env.chainHeight) && !belowSync env mns winner

/-- The payee last noted under the index. -/
def namedBefore (before : List CMasternodePaymentWinner) (index : Int) : Option CScript :=
  ((before.filter fun v => isThinned env mns v && winnerIndex v == index).getLast?).map
    CMasternodePaymentWinner.payee

/-- A vote behind those of `before` is pushed: it is for a height above the tip, or in the window
and no repetition. -/
def isPushed (before : List CMasternodePaymentWinner) (winner : CMasternodePaymentWinner) : Bool :=
  decide (env.chainHeight < winner.nBlockHeight) || isThinned env mns winner &&
    namedBefore env mns before (winnerIndex winner) != some winner.payee

/-- The votes behind `before` that are pushed. -/
def pushedFrom : List CMasternodePaymentWinner → List CMasternodePaymentWinner →
    List CMasternodePaymentWinner
  | _, [] => []
  | before, winner :: winners =>
    if isPushed env mns before winner then winner :: pushedFrom (before ++ [winner]) winners
    else pushedFrom (before ++ [winner]) winners

theorem namedBefore_append (before : List CMasternodePaymentWinner)
    (winner : CMasternodePaymentWinner) (index : Int) :
    namedBefore env mns (before ++ [winner]) index =
      if isThinned env mns winner = true ∧ winnerIndex winner = index then some winner.payee
      else namedBefore env mns before index := by
  unfold namedBefore
  rw [List.filter_append]
  by_cases noted : isThinned env mns winner = true ∧ winnerIndex winner = index
  · rw [if_pos noted, List.filter_singleton]
    simp [noted.1, noted.2]
  have none : (isThinned env mns winner && winnerIndex winner == index) = false := by
    simpa using noted
  rw [if_neg noted, List.filter_singleton, none]
  simp

/-- `umapVotes` holds the payee named last under an index. -/
theorem pushVotes_eq {umapVotes : AssocMap Int CScript} {before : List CMasternodePaymentWinner}
    (noted : ∀ index, umapVotes.lookup index = namedBefore env mns before index)
    (winners : List CMasternodePaymentWinner) :
    pushVotes env mns umapVotes winners = pushedFrom env mns before winners := by
  induction winners generalizing umapVotes before with
  | nil => rfl
  | cons winner winners ih =>
    unfold pushVotes pushedFrom isPushed
    by_cases past : winner.nBlockHeight ≤ env.chainHeight
    · have notAbove : ¬ env.chainHeight < winner.nBlockHeight := by omega
      rw [if_pos past, decide_eq_false notAbove, Bool.false_or]
      cases below : belowSync env mns winner with
      | true =>
        have kept : isThinned env mns winner = false := by simp [isThinned, below]
        rw [if_pos rfl, kept, Bool.false_and, if_neg Bool.false_ne_true]
        refine ih fun index => ?_
        rw [noted, namedBefore_append, kept]
        simp
      | false =>
        have thinned : isThinned env mns winner = true := by simp [isThinned, below, past]
        rw [if_neg Bool.false_ne_true, thinned, Bool.true_and, noted]
        by_cases same : namedBefore env mns before (winnerIndex winner) = some winner.payee
        · rw [if_pos same, same, bne_self_eq_false, if_neg Bool.false_ne_true]
          refine ih fun index => ?_
          rw [noted, namedBefore_append, thinned]
          by_cases equal : winnerIndex winner = index
          · rw [if_pos ⟨rfl, equal⟩, ← equal, same]
          · rw [if_neg fun both => equal both.2]
        rw [if_neg same, if_pos (bne_iff_ne.mpr same)]
        congr 1
        refine ih fun index => ?_
        rw [AssocMap.lookup_insert_eq, noted, namedBefore_append, thinned]
        by_cases equal : winnerIndex winner = index
        · rw [if_pos equal.symm, if_pos ⟨rfl, equal⟩]
        · rw [if_neg (Ne.symm equal), if_neg fun both => equal both.2]
    · have above : env.chainHeight < winner.nBlockHeight := by omega
      have kept : isThinned env mns winner = false := by simp [isThinned, past]
      rw [if_neg past, decide_eq_true above, Bool.true_or, if_pos rfl]
      congr 1
      refine ih fun index => ?_
      rw [noted, namedBefore_append, kept]
      simp

theorem pushedFrom_sublist (before winners : List CMasternodePaymentWinner) :
    (pushedFrom env mns before winners).Sublist winners := by
  induction winners generalizing before with
  | nil => exact List.Sublist.refl []
  | cons winner winners ih =>
    unfold pushedFrom
    split
    · exact (ih _).cons_cons winner
    · exact (ih _).cons winner

end Carried

/-! ## What the fresh node stores -/

section Fresh

variable {sha : WinnerHash} {env : PaymentsEnv}

/-- A winner as a node takes it from a pack, if every check besides `CanVote` passes. -/
def acceptWinner (env : PaymentsEnv) (winner : CMasternodePaymentWinner) :
    Option CMasternodePaymentWinner :=
  (withLevel env winner).bind fun winner =>
    if winner.isValid env && inWindow env 1 winner && afterCanVote env winner then some winner
    else none

variable {winner : CMasternodePaymentWinner} {winners : List CMasternodePaymentWinner}
  {s : CMasternodePayments}

theorem acceptWinner_same {taken : CMasternodePaymentWinner}
    (accepted : acceptWinner env winner = some taken) :
    taken.nBlockHeight = winner.nBlockHeight ∧ taken.payee = winner.payee ∧
      taken.getHash sha = winner.getHash sha := by
  obtain ⟨levelled, level, passes⟩ := Option.bind_eq_some_iff.mp accepted
  split at passes
  · obtain rfl := Option.some.inj passes
    obtain ⟨mn, -, rfl⟩ := Option.map_eq_some_iff.mp level
    exact ⟨rfl, rfl, rfl⟩
  · cases passes

theorem receiveWinner_fresh (s : CMasternodePayments)
    (fresh : s.mapMasternodePayeeVotes.contains (winner.getHash sha) = false) :
    ∃ last, (receiveWinner sha env 1 false s winner).1 =
      { (acceptWinner env winner).elim s (storeWinner sha s) with
        mapMasternodesLastVote := last } := by
  unfold receiveWinner beforeCanVote acceptWinner
  cases level : withLevel env winner with
  | none => exact ⟨_, rfl⟩
  | some taken =>
    have same : taken.getHash sha = winner.getHash sha := by
      obtain ⟨mn, -, rfl⟩ := Option.map_eq_some_iff.mp level
      rfl
    dsimp only
    rw [same, fresh, if_neg Bool.false_ne_true, Option.bind_some]
    cases valid : taken.isValid env with
    | false => exact ⟨_, rfl⟩
    | true =>
      cases window : inWindow env 1 taken with
      | false => exact ⟨_, rfl⟩
      | true =>
        simp only [Bool.not_true, Bool.false_eq_true, ↓reduceIte, Bool.true_and, Bool.and_false,
          afterCanVote]
        obtain ⟨last, noted⟩ : ∃ last, (canVote s taken.vinMasternode.prevout taken.nBlockHeight
            taken.payeeLevel).1 = { s with mapMasternodesLastVote := last } := by
          rw [canVote_eq]
          split
          · exact ⟨_, rfl⟩
          · exact ⟨_, rfl⟩
        refine ⟨last, ?_⟩
        rw [noted]
        cases signed : taken.signatureValid env with
        | false => rfl
        | true =>
          have fresh' : AssocMap.contains { s with mapMasternodesLastVote := last
              }.mapMasternodePayeeVotes (taken.getHash sha) = false := same ▸ fresh
          simp only [Bool.not_true, Bool.false_eq_true, ↓reduceIte, Bool.true_and,
            addWinningMasternode_of_fresh fresh']
          cases (env.getBlockHash (taken.nBlockHeight - 100)).isSome with
          | false => rfl
          | true => rfl

theorem contains_storeWinner (s : CMasternodePayments) (winner : CMasternodePaymentWinner)
    (hash : UInt256) :
    (storeWinner sha s winner).mapMasternodePayeeVotes.contains hash =
      (decide (hash = winner.getHash sha) || s.mapMasternodePayeeVotes.contains hash) :=
  AssocMap.contains_insert _ _ _ _

/-- Winners with hashes of their own that are not stored yet. -/
structure AllFresh (sha : WinnerHash) (s : CMasternodePayments)
    (winners : List CMasternodePaymentWinner) : Prop where
  absent : ∀ winner ∈ winners, s.mapMasternodePayeeVotes.contains (winner.getHash sha) = false
  distinct : (winners.map fun winner => winner.getHash sha).Nodup

theorem AllFresh.tail (fresh : AllFresh sha s (winner :: winners)) :
    AllFresh sha s winners where
  absent := fun w member => fresh.absent w (List.mem_cons_of_mem _ member)
  distinct := (List.nodup_cons.mp fresh.distinct).2

theorem AllFresh.stored {taken : CMasternodePaymentWinner}
    (fresh : AllFresh sha s (winner :: winners)) (same : taken.getHash sha = winner.getHash sha) :
    AllFresh sha (storeWinner sha s taken) winners where
  absent := fun w member => by
    rw [contains_storeWinner, fresh.tail.absent w member, Bool.or_false, decide_eq_false_iff_not,
      same]
    intro equal
    exact (List.nodup_cons.mp fresh.distinct).1 (List.mem_map.mpr ⟨w, member, equal⟩)
  distinct := fresh.tail.distinct

variable (env) in
/-- A pack of winners of which none is stored yet: the accepted ones are stored in their order. -/
theorem foldl_receiveWinner (fresh : AllFresh sha s winners) :
    ∃ last, winners.foldl (fun s winner => (receiveWinner sha env 1 false s winner).1) s =
      { (winners.filterMap (acceptWinner env)).foldl (storeWinner sha) s with
        mapMasternodesLastVote := last } := by
  induction winners generalizing s with
  | nil => exact ⟨_, rfl⟩
  | cons winner winners ih =>
    obtain ⟨last, received⟩ := receiveWinner_fresh s (fresh.absent winner List.mem_cons_self)
    rw [List.foldl_cons, received]
    -- what was recorded for the vote keys is overwritten again and again
    have overwritten : ∀ (stored : List CMasternodePaymentWinner) (t : CMasternodePayments),
        ∃ last', stored.foldl (storeWinner sha) { t with mapMasternodesLastVote := last } =
          { stored.foldl (storeWinner sha) t with mapMasternodesLastVote := last' } := by
      intro stored
      induction stored with
      | nil => exact fun t => ⟨_, rfl⟩
      | cons first rest ih => exact fun t => ih (storeWinner sha t first)
    cases accepted : acceptWinner env winner with
    | none =>
      rw [List.filterMap_cons_none accepted]
      have kept : AllFresh sha { s with mapMasternodesLastVote := last } winners :=
        ⟨fresh.tail.absent, fresh.tail.distinct⟩
      obtain ⟨last', rest⟩ := ih kept
      obtain ⟨last'', same⟩ := overwritten (winners.filterMap (acceptWinner env)) s
      refine ⟨last', ?_⟩
      show winners.foldl _ { s with mapMasternodesLastVote := last } = _
      rw [rest, same]
    | some taken =>
      rw [List.filterMap_cons_some accepted, List.foldl_cons]
      have stored := fresh.stored (acceptWinner_same accepted).2.2
      have kept : AllFresh sha { storeWinner sha s taken with mapMasternodesLastVote := last }
          winners := ⟨stored.absent, stored.distinct⟩
      obtain ⟨last', rest⟩ := ih kept
      obtain ⟨last'', same⟩ :=
        overwritten (winners.filterMap (acceptWinner env)) (storeWinner sha s taken)
      refine ⟨last', ?_⟩
      show winners.foldl _ { storeWinner sha s taken with mapMasternodesLastVote := last } = _
      rw [rest, same]

/-- The payees of a height, where there are none those of a new block. -/
def blockAt (s : CMasternodePayments) (nBlockHeight : Int) : CMasternodeBlockPayees :=
  (s.mapMasternodeBlocks.lookup nBlockHeight).getD (.new nBlockHeight)

/-- The payees of a height after these votes alone. -/
def tallyAt (winners : List CMasternodePaymentWinner) (nBlockHeight : Int) :
    CMasternodeBlockPayees :=
  (winners.filter fun winner => winner.nBlockHeight = nBlockHeight).foldl
    (fun block winner => block.addPayee winner.payeeLevel winner.payee 1) (.new nBlockHeight)

theorem blockAt_storeWinner (s : CMasternodePayments) (winner : CMasternodePaymentWinner)
    (nBlockHeight : Int) :
    blockAt (storeWinner sha s winner) nBlockHeight =
      if winner.nBlockHeight = nBlockHeight then
        (blockAt s nBlockHeight).addPayee winner.payeeLevel winner.payee 1
      else blockAt s nBlockHeight := by
  unfold blockAt storeWinner
  rw [AssocMap.lookup_insert_eq]
  by_cases equal : winner.nBlockHeight = nBlockHeight
  · subst equal
    rw [if_pos rfl, if_pos rfl, Option.getD_some]
  · rw [if_neg (Ne.symm equal), if_neg equal]

theorem blockAt_foldl (winners : List CMasternodePaymentWinner) (s : CMasternodePayments)
    (nBlockHeight : Int) :
    blockAt (winners.foldl (storeWinner sha) s) nBlockHeight =
      (winners.filter fun winner => winner.nBlockHeight = nBlockHeight).foldl
        (fun block winner => block.addPayee winner.payeeLevel winner.payee 1)
        (blockAt s nBlockHeight) := by
  induction winners generalizing s with
  | nil => rfl
  | cons winner winners ih =>
    rw [List.foldl_cons, ih, blockAt_storeWinner]
    by_cases equal : winner.nBlockHeight = nBlockHeight
    · rw [if_pos equal, List.filter_cons_of_pos (by simpa using equal), List.foldl_cons]
    · rw [if_neg equal, List.filter_cons_of_neg (by simpa using equal)]

theorem foldl_storeWinner (inv : EntriesCount s) (fresh : AllFresh sha s winners) :
    EntriesCount (winners.foldl (storeWinner sha) s) ∧
      (stored (winners.foldl (storeWinner sha) s)).Perm (winners ++ stored s) := by
  induction winners generalizing s with
  | nil => exact ⟨inv, List.Perm.refl _⟩
  | cons winner winners ih =>
    have absent := fresh.absent winner List.mem_cons_self
    obtain ⟨counted, members⟩ := ih (inv.store absent) (fresh.stored rfl)
    refine ⟨counted, ?_⟩
    rw [stored_storeWinner absent] at members
    exact members.trans List.perm_middle

end Fresh

end Esbcoin.Payments
