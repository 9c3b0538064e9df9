import Esbcoin.Masternode.WinnerSync

namespace Esbcoin.Payments

open StepRun

/-! ## The payee of a level -/

/-- `entry` stands among the entries of its level with more votes than those before it and no
fewer than those behind it. -/
structure LeadsBetween (mnlevel : Nat) (before : List CMasternodePayee) (entry : CMasternodePayee)
    (after : List CMasternodePayee) : Prop where
  level : entry.mnlevel = mnlevel
  before : ∀ other ∈ before, other.mnlevel = mnlevel → other.nVotes < entry.nVotes
  after : ∀ other ∈ after, other.mnlevel = mnlevel → other.nVotes ≤ entry.nVotes

/-- `payee` has the most votes of a level, and is the first one that has as many. -/
def Leads (entries : List CMasternodePayee) (mnlevel : Nat) (payee : CScript) : Prop :=
  ∃ before entry after, entries = before ++ entry :: after ∧
    LeadsBetween mnlevel before entry after ∧ entry.scriptPubKey = payee

section Leading

variable {mnlevel : Nat}

/-- Where the loop of `GetPayee` ends. -/
theorem foldl_preferPayee (mnlevel : Nat) (entries : List CMasternodePayee) :
    match entries.foldl (preferPayee mnlevel) none with
    | none => ∀ entry ∈ entries, entry.mnlevel ≠ mnlevel
    | some entry => ∃ before after, entries = before ++ entry :: after ∧
        LeadsBetween mnlevel before entry after := by
  induction entries using List.reverseRecOn with
  | nil => exact fun _ member => by cases member
  | append_singleton entries p ih =>
    rw [List.foldl_append, List.foldl_cons, List.foldl_nil]
    by_cases level : p.mnlevel = mnlevel
    · cases best : entries.foldl (preferPayee mnlevel) none with
      | none =>
        rw [best] at ih
        have first : preferPayee mnlevel none p = some p := by simp [preferPayee, level]
        rw [first]
        refine ⟨entries, [], rfl, level, ?_, ?_⟩
        · exact fun other member same => absurd same (ih other member)
        · exact fun _ member => by cases member
      | some entry =>
        rw [best] at ih
        obtain ⟨before, after, rfl, leads⟩ := ih
        by_cases more : p.nVotes > entry.nVotes
        · have takes : preferPayee mnlevel (some entry) p = some p := by
            simp [preferPayee, level, more]
          rw [takes]
          refine ⟨before ++ entry :: after, [], rfl, level, ?_, ?_⟩
          · intro other member same
            rcases List.mem_append.mp member with early | late
            · exact (leads.before other early same).trans more
            · rcases List.mem_cons.mp late with rfl | behind
              · exact more
              · exact Int.lt_of_le_of_lt (leads.after other behind same) more
          · exact fun _ member => by cases member
        · have keeps : preferPayee mnlevel (some entry) p = some entry := by
            simp [preferPayee, level, more]
          rw [keeps]
          refine ⟨before, after ++ [p], by simp, leads.level, leads.before, ?_⟩
          intro other member same
          rcases List.mem_append.mp member with behind | last
          · exact leads.after other behind same
          · rw [List.mem_singleton.mp last]
            exact Int.not_lt.mp more
    · have skips : ∀ payment, preferPayee mnlevel payment p = payment := fun payment => by
        simp [preferPayee, level]
      rw [skips]
      cases best : entries.foldl (preferPayee mnlevel) none with
      | none =>
        rw [best] at ih
        intro entry member
        rcases List.mem_append.mp member with early | last
        · exact ih entry early
        · rw [List.mem_singleton.mp last]
          exact level
      | some entry =>
        rw [best] at ih
        obtain ⟨before, after, rfl, leads⟩ := ih
        refine ⟨before, after ++ [p], by simp, leads.level, leads.before, ?_⟩
        intro other member same
        rcases List.mem_append.mp member with behind | last
        · exact leads.after other behind same
        · rw [List.mem_singleton.mp last] at same
          exact absurd same level

/-- Nobody behind it takes the place of an entry that has as many votes. -/
theorem foldl_preferPayee_of_le {entry : CMasternodePayee} {after : List CMasternodePayee}
    (most : ∀ other ∈ after, other.mnlevel = mnlevel → other.nVotes ≤ entry.nVotes) :
    after.foldl (preferPayee mnlevel) (some entry) = some entry := by
  induction after with
  | nil => rfl
  | cons p after ih =>
    obtain ⟨here, rest⟩ := List.forall_mem_cons.mp most
    have keeps : preferPayee mnlevel (some entry) p = some entry := by
      unfold preferPayee
      by_cases level : p.mnlevel = mnlevel
      · have few := here level
        simp [level, few]
      · simp [level]
    rw [List.foldl_cons, keeps, ih rest]

theorem getPayee_eq_some_iff (block : CMasternodeBlockPayees) (payee : CScript) :
    block.getPayee mnlevel = some payee ↔ Leads block.vecPayments mnlevel payee := by
  unfold CMasternodeBlockPayees.getPayee
  rw [Option.map_eq_some_iff]
  constructor
  · rintro ⟨entry, best, rfl⟩
    have ends := foldl_preferPayee mnlevel block.vecPayments
    rw [best] at ends
    obtain ⟨before, after, split, leads⟩ := ends
    exact ⟨before, entry, after, split, leads, rfl⟩
  rintro ⟨before, entry, after, split, leads, rfl⟩
  refine ⟨entry, ?_, rfl⟩
  have takes : preferPayee mnlevel (before.foldl (preferPayee mnlevel) none) entry =
      some entry := by
    have ends := foldl_preferPayee mnlevel before
    cases best : before.foldl (preferPayee mnlevel) none with
    | none => simp [preferPayee, leads.level]
    | some other =>
      rw [best] at ends
      obtain ⟨early, late, rfl, led⟩ := ends
      have fewer := leads.before other (by simp) led.level
      simp [preferPayee, leads.level, fewer]
  rw [split, List.foldl_append, List.foldl_cons, takes]
  exact foldl_preferPayee_of_le leads.after

end Leading

theorem getBlockPayee_eq (s : CMasternodePayments) (nBlockHeight : Int) (mnlevel : Nat) :
    getBlockPayee s nBlockHeight mnlevel = (blockAt s nBlockHeight).getPayee mnlevel := by
  unfold getBlockPayee blockAt
  cases s.mapMasternodeBlocks.lookup nBlockHeight <;> rfl

/-- Two tables have the same payee for a level of a height if the same one leads in both. -/
theorem getBlockPayee_eq_iff (s s' : CMasternodePayments) (nBlockHeight : Int) (mnlevel : Nat) :
    getBlockPayee s' nBlockHeight mnlevel = getBlockPayee s nBlockHeight mnlevel ↔
      ∀ payee, Leads (blockAt s' nBlockHeight).vecPayments mnlevel payee ↔
        Leads (blockAt s nBlockHeight).vecPayments mnlevel payee := by
  simp only [getBlockPayee_eq, ← getPayee_eq_some_iff]
  constructor
  · intro same payee
    rw [same]
  · exact fun same => Option.ext same

/-! ## When a masternode was paid last -/

/-- How many vote for the payee at the height. -/
def votesFor (winners : List CMasternodePaymentWinner) (nBlockHeight : Int) (payee : CScript) :
    Nat :=
  winners.countP fun winner => decide (winner.nBlockHeight = nBlockHeight ∧ winner.payee = payee)

/-- A payee has six votes in the tables where six stored winners name it. -/
theorem hasPayeeWithVotes_eq {s : CMasternodePayments} (inv : EntriesCount s) (nBlockHeight : Int)
    (payee : CScript) :
    ((s.mapMasternodeBlocks.lookup nBlockHeight).any fun block =>
      block.hasPayeeWithVotes payee 6) = decide (6 ≤ votesFor (stored s) nBlockHeight payee) := by
  have entries : ((s.mapMasternodeBlocks.lookup nBlockHeight).any fun block =>
      block.hasPayeeWithVotes payee 6) = true ↔
        ∃ entry, payeeAt s nBlockHeight payee = some entry ∧ 6 ≤ entry.nVotes := by
    simp only [Option.any_eq_true, CMasternodeBlockPayees.hasPayeeWithVotes, List.any_eq_true,
      Bool.and_eq_true, decide_eq_true_eq, beq_iff_eq, payeeAt, Option.bind_eq_some_iff,
      CMasternodeBlockPayees.mem_vecPayments_iff]
    constructor
    · rintro ⟨block, found, entry, known, votes, rfl⟩
      exact ⟨entry, ⟨block, found, known⟩, votes⟩
    · rintro ⟨entry, ⟨block, found, known⟩, votes⟩
      have script := KeyedList.key_of_find known
      exact ⟨block, found, entry, by rw [script]; exact known, votes, script⟩
  rw [Bool.eq_iff_iff, entries, decide_eq_true_eq]
  constructor
  · rintro ⟨entry, found, votes⟩
    have counted := (inv.entries _ _ _ found).1
    unfold winnersAt at counted
    unfold votesFor
    omega
  intro votes
  obtain ⟨winner, member, names⟩ := List.countP_pos_iff.mp (Nat.lt_of_lt_of_le (by decide) votes)
  obtain ⟨rfl, rfl⟩ := of_decide_eq_true names
  obtain ⟨entry, found⟩ := Option.isSome_iff_exists.mp (inv.present winner member)
  have counted := (inv.entries _ _ _ found).1
  unfold winnersAt at counted
  unfold votesFor at votes
  exact ⟨entry, found, by omega⟩

section LastPaid

variable (env : RanksEnv) (vMasternodes : List CMasternode)

/-- The blocks `GetLastPaid` looks at, from a block back. -/
def readBlocks : Nat → Option CBlockIndex → List CBlockIndex
  | n + 1, some BlockReading =>
    if BlockReading.nHeight > 0 then
      BlockReading :: readBlocks n (env.chain.mapBlockIndex.deref BlockReading.pprev)
    else []
  | _, _ => []

/-- The blocks in which `GetLastPaid` looks for the masternode. -/
def paidCycle (mn : CMasternode) : List CBlockIndex :=
  readBlocks env (fiveQuarters (countEnabled vMasternodes (mn.level env.chainHeight)
    (activeProtocol env.chainHeight) env.chainHeight)).toNat env.chain.tip

/-- `nOffset` of a masternode (`masternode.cpp:274`). -/
def paidOffset (mn : CMasternode) : Int :=
  (getCompact (env.paidSha mn.vin mn.sigTime) false).toNat % 90

/-- The time of the latest block of its cycle for which at least six of the votes name a
masternode; its offset where there is no such block. -/
def namedTime (mn : CMasternode) (winners : List CMasternodePaymentWinner) : Int :=
  ((paidCycle env vMasternodes mn).find? fun BlockReading =>
    decide (6 ≤ votesFor winners BlockReading.nHeight mn.payee)).elim (paidOffset env mn)
      CBlockIndex.getBlockTime

theorem readPaid_eq {s : CMasternodePayments} (inv : EntriesCount s) (mnpayee : CScript)
    (nOffset : Int) (n : Nat) (start : Option CBlockIndex) :
    readPaid { env with payments := s } mnpayee nOffset n start =
      ((readBlocks env n start).find? fun BlockReading =>
        decide (6 ≤ votesFor (stored s) BlockReading.nHeight mnpayee)).elim nOffset
          CBlockIndex.getBlockTime - nOffset := by
  induction n generalizing start with
  | zero => cases start <;> simp [readPaid, readBlocks]
  | succ n ih =>
    cases start with
    | none => simp [readPaid, readBlocks]
    | some BlockReading =>
      unfold readPaid readBlocks
      by_cases positive : BlockReading.nHeight > 0
      · rw [if_pos positive, if_pos positive, hasPayeeWithVotes_eq inv, List.find?_cons]
        cases decide (6 ≤ votesFor (stored s) BlockReading.nHeight mnpayee) with
        | true => rfl
        | false => exact ih _
      · rw [if_neg positive, if_neg positive]
        simp

theorem getLastPaid_eq {s : CMasternodePayments} (inv : EntriesCount s) (mn : CMasternode) :
    getLastPaid { env with payments := s } vMasternodes mn =
      namedTime env vMasternodes mn (stored s) - paidOffset env mn := by
  unfold getLastPaid namedTime paidCycle
  cases tip : env.chain.tip with
  | none =>
    have nothing : ∀ n, readBlocks env n none = [] := fun n => by cases n <;> rfl
    rw [nothing]
    simp
  | some pindexPrev => exact readPaid_eq env inv mn.payee _ _ _

end LastPaid

/-! ## Who is paid next -/

section Next

variable {env : RanksEnv} {mns : MasternodeList} {s s' : CMasternodePayments}

theorem isScheduled_congr (same : ∀ mnlevel ∈ CMasternode.levels, ∀ nBlockHeight,
      InSyncWindow env mns mnlevel nBlockHeight →
        getBlockPayee s' nBlockHeight mnlevel = getBlockPayee s nBlockHeight mnlevel)
    {mn : CMasternode} (level : mn.level env.chainHeight ∈ CMasternode.levels)
    (count : Nat) (nNotBlockHeight : Int) :
    isScheduled { env with payments := s' } mn count nNotBlockHeight =
      isScheduled { env with payments := s } mn count nNotBlockHeight := by
  unfold isScheduled
  cases tip : env.chain.tip with
  | none => rfl
  | some chain_tip =>
    have height : chain_tip.nHeight = env.chainHeight := by
      rcases tip_cases env.chain with ⟨noTip, -⟩ | ⟨_, pindex, found, -, -, -, height⟩
      · rw [noTip] at tip
        cases tip
      · rw [found] at tip
        obtain rfl := Option.some.inj tip
        exact height
    have counted : (0 : Int) ≤ fiveQuarters (queueCount env mns (mn.level env.chainHeight)) :=
      Int.natCast_nonneg _
    dsimp only
    congr 1
    rw [Bool.eq_iff_iff, List.any_eq_true, List.any_eq_true]
    refine exists_congr fun i => and_congr_right fun inside => ?_
    have small := List.mem_range.mp inside
    have window : InSyncWindow env mns (mn.level env.chainHeight) (chain_tip.nHeight + 10 -
        ((min 10 ((count : Int) - 1)).toNat : Int) + i) := by
      constructor <;> omega
    have payees := same _ level _ window
    unfold getBlockPayee at payees
    rw [Bool.and_eq_true, Bool.and_eq_true]
    refine and_congr_right fun _ => ?_
    generalize chain_tip.nHeight + 10 - ((min 10 ((count : Int) - 1)).toNat : Int) + i = h at payees
    cases found : s.mapMasternodeBlocks.lookup h with
    | none =>
      cases found' : s'.mapMasternodeBlocks.lookup h with
      | none => rfl
      | some block' =>
        rw [found, found', Option.bind_some, Option.bind_none] at payees
        show (block'.getPayee (mn.level env.chainHeight) == some mn.payee) = true ↔ _
        rw [payees]
        rfl
    | some block =>
      cases found' : s'.mapMasternodeBlocks.lookup h with
      | none =>
        rw [found, found', Option.bind_some, Option.bind_none] at payees
        show _ ↔ (block.getPayee (mn.level env.chainHeight) == some mn.payee) = true
        rw [← payees]
        rfl
      | some block' =>
        rw [found, found', Option.bind_some, Option.bind_some] at payees
        show (block'.getPayee (mn.level env.chainHeight) == some mn.payee) = true ↔
          (block.getPayee (mn.level env.chainHeight) == some mn.payee) = true
        rw [payees]

/-- The scores do not depend on the tables. -/
theorem payBest_payments (vMasternodes : List CMasternode) (nBlockHeight nCountTenth : Int)
    (nHigh : UInt256) (best : Option CMasternode) (entries : List (Int × CTxIn)) :
    payBest { env with payments := s' } vMasternodes nBlockHeight nCountTenth nHigh best entries =
      payBest { env with payments := s } vMasternodes nBlockHeight nCountTenth nHigh best
        entries := by
  induction entries generalizing nCountTenth nHigh best with
  | nil => rfl
  | cons entry entries ih =>
    unfold payBest
    cases findVin vMasternodes entry.2 with
    | none => exact ih _ _ _
    | some pmn =>
      dsimp only
      split
      · rfl
      · exact ih _ _ _

/-- The queue reads the tables through `GetLastPaid` and `GetBlockPayee`. -/
theorem next_congr (lastPaid : ∀ mn ∈ mns.vMasternodes,
      getLastPaid { env with payments := s' } mns.vMasternodes mn =
        getLastPaid { env with payments := s } mns.vMasternodes mn)
    (blockPayee : ∀ mnlevel ∈ CMasternode.levels, ∀ nBlockHeight,
      InSyncWindow env mns mnlevel nBlockHeight →
        getBlockPayee s' nBlockHeight mnlevel = getBlockPayee s nBlockHeight mnlevel)
    {mnlevel : Nat} (level : mnlevel ∈ CMasternode.levels) (nBlockHeight : Int)
    (fFilterSigTime : Bool) :
    getNextMasternodeInQueueForPayment { env with payments := s' } mns nBlockHeight mnlevel
        fFilterSigTime =
      getNextMasternodeInQueueForPayment { env with payments := s } mns nBlockHeight mnlevel
        fFilterSigTime := by
  have queued : ∀ filter, queuedMasternodes { env with payments := s' } mns nBlockHeight mnlevel
      filter = queuedMasternodes { env with payments := s } mns nBlockHeight mnlevel filter := by
    intro filter
    refine List.filter_congr fun mn _ => ?_
    by_cases own : mn.level env.chainHeight = mnlevel
    · have scheduled := isScheduled_congr blockPayee (show mn.level env.chainHeight ∈ _ from
        own ▸ level) (queueCount env mns mnlevel) nBlockHeight
      exact congrArg (fun scheduled => _ && !scheduled) scheduled
    have other : (mn.level env.chainHeight == mnlevel) = false := beq_eq_false_iff_ne.mpr own
    show ((((mn.level env.chainHeight == mnlevel) && _) && _) && _ && _ && _) =
      ((((mn.level env.chainHeight == mnlevel) && _) && _) && _ && _ && _)
    rw [other]
    simp
  have filters : keepsFilter { env with payments := s' } mns nBlockHeight mnlevel fFilterSigTime =
      keepsFilter { env with payments := s } mns nBlockHeight mnlevel fFilterSigTime := by
    unfold keepsFilter
    rw [queued]
    rfl
  have entries : ∀ filter,
      (queuedMasternodes { env with payments := s } mns nBlockHeight mnlevel filter).map
        (paidEntry { env with payments := s' } mns.vMasternodes) =
      (queuedMasternodes { env with payments := s } mns nBlockHeight mnlevel filter).map
        (paidEntry { env with payments := s } mns.vMasternodes) := by
    intro filter
    refine List.map_congr_left fun mn member => ?_
    unfold paidEntry secondsSincePayment
    rw [lastPaid mn (List.mem_filter.mp member).1]
  unfold getNextMasternodeInQueueForPayment
  dsimp only
  rw [filters, queued, entries, payBest_payments]
  rfl

end Next

/-! ## The pack and the fresh node -/

section Pack

variable {sha : WinnerHash}

/-- Every winner is filed under its hash. -/
def WinnersFiled (sha : WinnerHash) (s : CMasternodePayments) : Prop :=
  ∀ hash winner, s.mapMasternodePayeeVotes.lookup hash = some winner → winner.getHash sha = hash

theorem WinnersFiled.step {s : CMasternodePayments} (filed : WinnersFiled sha s)
    (a : TableAction) : WinnersFiled sha (tableStep sha s a) := by
  cases a with
  | addWinningMasternode env winnerIn =>
    simp only [tableStep, addWinningMasternode]
    split
    · exact filed
    split
    · exact filed
    intro hash winner found
    simp only [storeWinner, AssocMap.lookup_insert_eq] at found
    split at found
    · rename_i equal
      obtain rfl := Option.some.inj found
      exact equal.symm
    · exact filed hash winner found
  | cleanPaymentList env =>
    simp only [tableStep, cleanPaymentList]
    split
    · exact filed
    · intro hash winner found
      rw [AssocMap.lookup_retain] at found
      exact filed hash winner (Option.filter_eq_some_iff.mp found).1
  | clear => exact fun _ _ found => by cases found

/-- The tables of a node after any calls. -/
theorem tables_run (sha : WinnerHash) (actions : List TableAction) :
    EntriesCount (run (tableStep sha) .init actions) ∧
      WinnersFiled sha (run (tableStep sha) .init actions) := by
  refine ⟨run_invariant (fun _ a inv => inv.step a) entriesCount_init actions,
    run_invariant (I := WinnersFiled sha) (fun _ a filed => filed.step a) ?_ actions⟩
  exact fun _ _ found => by cases found

theorem votesInOrder_perm (s : CMasternodePayments) : (votesInOrder s).Perm (stored s) :=
  (List.perm_insertionSort _ _).map _

/-- No two winners of the tables have one hash. -/
theorem distinct_votesInOrder {s : CMasternodePayments} (filed : WinnersFiled sha s) :
    ((votesInOrder s).map fun winner => winner.getHash sha).Nodup := by
  rw [((votesInOrder_perm s).map _).nodup_iff, stored, List.map_map]
  have keys : s.mapMasternodePayeeVotes.entries.map
      ((fun winner => winner.getHash sha) ∘ Sigma.snd) =
        s.mapMasternodePayeeVotes.entries.map Sigma.fst :=
    List.map_congr_left fun e member => filed e.1 e.2 (AList.mem_lookup_iff.mpr member)
  rw [keys]
  exact s.mapMasternodePayeeVotes.nodupKeys

theorem accepted_sublist (env : PaymentsEnv) (winners : List CMasternodePaymentWinner) :
    ((winners.filterMap (acceptWinner env)).map fun winner => winner.getHash sha).Sublist
      (winners.map fun winner => winner.getHash sha) := by
  induction winners with
  | nil => exact List.Sublist.refl []
  | cons winner winners ih =>
    cases accepted : acceptWinner env winner with
    | none =>
      rw [List.filterMap_cons_none accepted]
      exact ih.cons _
    | some taken =>
      rw [List.filterMap_cons_some accepted, List.map_cons, List.map_cons,
        (acceptWinner_same accepted).2.2]
      exact ih.cons_cons _

variable (env : RanksEnv) (mns : MasternodeList)
  (verifyMessage : List UInt8 → List UInt8 → COutPoint → Int → CScript → Bool)

/-- The votes of the tables that are pushed and that the fresh node accepts. -/
def carriedVotes (s : CMasternodePayments) : List CMasternodePaymentWinner :=
  (pushedFrom env mns [] (votesInOrder s)).filterMap (acceptWinner (packEnv env mns verifyMessage))

/-- The carried votes decide as all votes do: for the latest block in which a masternode was named
six times, and for the payee with the most votes of every height and level. -/
structure CarriedDecide (s : CMasternodePayments) : Prop where
  lastPaid : ∀ mn ∈ mns.vMasternodes,
    namedTime env mns.vMasternodes mn (carriedVotes env mns verifyMessage s) =
      namedTime env mns.vMasternodes mn (stored s)
  leaders : ∀ mnlevel ∈ CMasternode.levels, ∀ nBlockHeight,
    InSyncWindow env mns mnlevel nBlockHeight → ∀ payee,
      Leads (tallyAt (carriedVotes env mns verifyMessage s) nBlockHeight).vecPayments mnlevel
          payee ↔
        Leads (blockAt s nBlockHeight).vecPayments mnlevel payee

/-- The tables of a fresh node that has taken the pack. -/
def freshTables (sha : WinnerHash) (pack : List CMasternodePaymentWinner) : CMasternodePayments :=
  mnwp sha (packEnv env mns verifyMessage) false .init pack

variable {env mns}

/-- What the fresh node has stored behind the pack. -/
theorem freshTables_eq {s : CMasternodePayments} (filed : WinnersFiled sha s)
    (chain : 0 ≤ env.chainHeight) {pack : List CMasternodePaymentWinner}
    (sent : sync env mns s = some pack) :
    EntriesCount (freshTables env mns verifyMessage sha pack) ∧
      (stored (freshTables env mns verifyMessage sha pack)).Perm
        (carriedVotes env mns verifyMessage s) ∧
      ∀ nBlockHeight, blockAt (freshTables env mns verifyMessage sha pack) nBlockHeight =
        tallyAt (carriedVotes env mns verifyMessage s) nBlockHeight := by
  have pushed : pack = pushedFrom env mns [] (votesInOrder s) := by
    unfold sync at sent
    split at sent
    · cases sent
    · obtain rfl := Option.some.inj sent
      exact pushVotes_eq env mns (fun _ => rfl) _
  have handled : (packEnv env mns verifyMessage).handlesMessages = true := by
    simp [PaymentsEnv.handlesMessages, packEnv, chain]
  have distinct : (pack.map fun winner => winner.getHash sha).Nodup := by
    rw [pushed]
    exact (distinct_votesInOrder filed).sublist ((pushedFrom_sublist env mns [] _).map _)
  have fresh : AllFresh sha .init pack := ⟨fun _ _ => rfl, distinct⟩
  have accepted : AllFresh sha .init (carriedVotes env mns verifyMessage s) := by
    refine ⟨fun _ _ => rfl, ?_⟩
    rw [carriedVotes, ← pushed]
    exact distinct.sublist (accepted_sublist _ pack)
  obtain ⟨last, received⟩ := foldl_receiveWinner (packEnv env mns verifyMessage) fresh
  obtain ⟨counted, members⟩ := foldl_storeWinner entriesCount_init accepted
  have tables : freshTables env mns verifyMessage sha pack =
      { (carriedVotes env mns verifyMessage s).foldl (storeWinner sha) .init with
        mapMasternodesLastVote := last } := by
    rw [freshTables, mnwp, if_pos handled, received, carriedVotes, pushed]
  rw [tables]
  refine ⟨⟨counted.entries, counted.present, counted.heights⟩, ?_, fun nBlockHeight => ?_⟩
  · have none : stored CMasternodePayments.init = [] := rfl
    rw [none, List.append_nil] at members
    exact members
  · exact blockAt_foldl (carriedVotes env mns verifyMessage s) .init nBlockHeight

/-- With the tables of any run, a fresh node that takes the pack, if one is sent, agrees with the
sender exactly when the carried votes decide as all votes do. -/
theorem sync_agrees_iff (sha : WinnerHash) (actions : List TableAction) (env : RanksEnv)
    (mns : MasternodeList)
    (verifyMessage : List UInt8 → List UInt8 → COutPoint → Int → CScript → Bool) :
    (∀ pack, sync env mns (run (tableStep sha) .init actions) = some pack →
        TablesAgree env mns (run (tableStep sha) .init actions)
          (freshTables env mns verifyMessage sha pack)) ↔
      (env.locked = true → 0 ≤ env.chainHeight →
        CarriedDecide env mns verifyMessage (run (tableStep sha) .init actions)) := by
  obtain ⟨counted, filed⟩ := tables_run sha actions
  generalize run (tableStep sha) .init actions = s at counted filed ⊢
  -- the two readers of the tables, in terms of the votes
  have paid : ∀ {pack}, sync env mns s = some pack → 0 ≤ env.chainHeight → ∀ mn,
      (getLastPaid { env with payments := freshTables env mns verifyMessage sha pack }
          mns.vMasternodes mn = getLastPaid { env with payments := s } mns.vMasternodes mn ↔
        namedTime env mns.vMasternodes mn (carriedVotes env mns verifyMessage s) =
          namedTime env mns.vMasternodes mn (stored s)) := by
    intro pack sent chain mn
    obtain ⟨fresh, members, -⟩ := freshTables_eq verifyMessage filed chain sent
    have same : namedTime env mns.vMasternodes mn
        (stored (freshTables env mns verifyMessage sha pack)) =
          namedTime env mns.vMasternodes mn (carriedVotes env mns verifyMessage s) := by
      unfold namedTime votesFor
      simp only [members.countP_eq]
    rw [getLastPaid_eq env _ fresh, getLastPaid_eq env _ counted, same]
    omega
  have leads : ∀ {pack}, sync env mns s = some pack → 0 ≤ env.chainHeight → ∀ nBlockHeight mnlevel,
      (getBlockPayee (freshTables env mns verifyMessage sha pack) nBlockHeight mnlevel =
          getBlockPayee s nBlockHeight mnlevel ↔
        ∀ payee, Leads (tallyAt (carriedVotes env mns verifyMessage s) nBlockHeight).vecPayments
            mnlevel payee ↔ Leads (blockAt s nBlockHeight).vecPayments mnlevel payee) := by
    intro pack sent chain nBlockHeight mnlevel
    rw [getBlockPayee_eq_iff, (freshTables_eq verifyMessage filed chain sent).2.2]
  constructor
  · intro agree locked chain
    have sent : sync env mns s = some (pushVotes env mns ∅ (votesInOrder s)) := by
      unfold sync
      rw [locked, Bool.not_true, Bool.false_or, if_neg (by simpa using chain)]
    have both := agree _ sent
    constructor
    · exact fun mn member => (paid sent chain mn).mp (both.lastPaid mn member)
    · exact fun mnlevel level nBlockHeight window =>
        (leads sent chain nBlockHeight mnlevel).mp
          (both.blockPayee mnlevel level nBlockHeight window)
  intro decide pack sent
  have made : env.locked = true ∧ 0 ≤ env.chainHeight := by
    unfold sync at sent
    split at sent
    · cases sent
    · rename_i sends
      simpa using sends
  obtain ⟨locked, chain⟩ := made
  have carried := decide locked chain
  have lastPaid := fun mn member => (paid sent chain mn).mpr (carried.lastPaid mn member)
  have blockPayee := fun mnlevel level nBlockHeight window =>
    (leads sent chain nBlockHeight mnlevel).mpr
      (carried.leaders mnlevel level nBlockHeight window)
  exact ⟨lastPaid, blockPayee, fun mnlevel level nBlockHeight fFilterSigTime =>
    next_congr lastPaid blockPayee level nBlockHeight fFilterSigTime⟩

end Pack

/-! ## Six votes of which one is carried -/

def timedIndex (nHeight : Nat) : CBlockIndex :=
  { straightIndex nHeight with nTime := 1554746400 + UInt32.ofNat nHeight }

def sixMasternodes : MasternodeList where
  vMasternodes := [0, 1, 2, 3, 4, 5].map fun n =>
    ⟨⟨⟨50, n⟩, [], 0⟩, [1, n.toUInt8], [], true, 5000 * COIN, 0, 70225⟩
  distinct := by decide

def timedEnv : RanksEnv where
  sha _ := 0
  paidSha _ _ := 0
  chain :=
    { mapBlockIndex := heightsMap timedIndex 20 (by decide)
      chainActive := straightChain 20
      wellFormed := heightsMap_wellFormed (fun _ => rfl) (by decide)
      linked := heightsMap_linked (fun _ => rfl) (by decide) }
  mapCacheBlockHashes := ∅
  adjustedTime := 1554746500
  paymentEnforcement := false
  winnerMinimumAge := 0
  locked := true
  getInputAge _ := 0
  cachedInputAge _ := (0, 0)
  payments := .init
  sorter := .stable

def sixVotes : List TableAction :=
  [0, 1, 2, 3, 4, 5].map fun n =>
    .addWinningMasternode paymentsEnv ⟨⟨⟨50, n⟩, [], 0⟩, 19, [1, 0], [1], 1⟩

/-- A fresh node does not know that the masternode was paid: it is sent one of its six votes. -/
theorem thinned_votes_unpaid :
    ¬ ∀ pack, sync timedEnv sixMasternodes (run (tableStep sampleSha) .init sixVotes) = some pack →
      TablesAgree timedEnv sixMasternodes (run (tableStep sampleSha) .init sixVotes)
        (freshTables timedEnv sixMasternodes (fun _ _ _ _ _ => true) sampleSha pack) := by
  intro agree
  have sent : sync timedEnv sixMasternodes (run (tableStep sampleSha) .init sixVotes) =
      some [⟨⟨⟨50, 0⟩, [], 0⟩, 19, [1, 0], [1], 1⟩] := by decide +kernel
  have paid := (agree _ sent).lastPaid
    ⟨⟨⟨50, 0⟩, [], 0⟩, [1, 0], [], true, 5000 * COIN, 0, 70225⟩ (by decide +kernel)
  revert paid
  decide +kernel

end Esbcoin.Payments
