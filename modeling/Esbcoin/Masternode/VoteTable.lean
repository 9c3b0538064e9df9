import Esbcoin.Lib.Reorder
import Esbcoin.Masternode.OneVote

/-!
# The vote table

The counts of `mapMasternodeBlocks` next to the winners of `mapMasternodePayeeVotes`. A payee has
one entry for a height, whose level is the one of the winner that made it. `sameTable_of_reordered`
says that messages give the same table in two orders that differ only between masternodes and
levels.
-/

namespace Esbcoin.Payments

open StepRun

/-- The entry of a payee at a height. -/
def payeeAt (s : CMasternodePayments) (nBlockHeight : Int) (payee : CScript) :
    Option CMasternodePayee :=
  (s.mapMasternodeBlocks.lookup nBlockHeight).bind (·.payeeOf payee)

/-- The votes recorded in `mapMasternodeBlocks` for a height, a level and a payee. -/
def votesAt (s : CMasternodePayments) (nBlockHeight : Int) (mnlevel : Nat) (payee : CScript) :
    Int :=
  match payeeAt s nBlockHeight payee with
  | some entry => if entry.mnlevel = mnlevel then entry.nVotes else 0
  | none => 0

/-- The entry of a payee with one more vote. -/
def withVote (entry : Option CMasternodePayee) (winner : CMasternodePaymentWinner) :
    CMasternodePayee :=
  (entry.map (fun p => { p with nVotes := p.nVotes + 1 })).getD
    ⟨winner.payee, winner.payeeLevel, 1⟩

theorem payeeAt_storeWinner (sha : WinnerHash) (s : CMasternodePayments)
    (winner : CMasternodePaymentWinner) (nBlockHeight : Int) (payee : CScript) :
    payeeAt (storeWinner sha s winner) nBlockHeight payee =
      if nBlockHeight = winner.nBlockHeight ∧ payee = winner.payee then
        some (withVote (payeeAt s winner.nBlockHeight winner.payee) winner)
      else payeeAt s nBlockHeight payee := by
  unfold payeeAt storeWinner
  simp only [AssocMap.lookup_insert_eq]
  by_cases height : nBlockHeight = winner.nBlockHeight
  · subst height
    simp only [↓reduceIte, Option.bind_some, CMasternodeBlockPayees.payeeOf_addPayee, true_and]
    cases block : s.mapMasternodeBlocks.lookup winner.nBlockHeight with
    | none =>
      by_cases equal : payee = winner.payee
      · simp [equal, withVote]
      · simp [equal]
    | some payees =>
      by_cases equal : payee = winner.payee
      · simp [equal, withVote]
      · simp [equal]
  · simp [height]

/-! ## Counts and winners -/

section Counts

variable (sha : WinnerHash)

/-- The calls that change the two maps. -/
inductive TableAction where
  | addWinningMasternode (env : PaymentsEnv) (winnerIn : CMasternodePaymentWinner)
  | cleanPaymentList (env : PaymentsEnv)
  | clear

/-- A step of the vote table. -/
def tableStep (s : CMasternodePayments) : TableAction → CMasternodePayments
  | .addWinningMasternode env winnerIn => (addWinningMasternode sha env s winnerIn).1
  | .cleanPaymentList env => cleanPaymentList env s
  | .clear => s.clear

/-- The counts are the numbers of winners, and both maps have winners for the same heights. -/
structure CountsAgree (s : CMasternodePayments) : Prop where
  counts : ∀ nBlockHeight mnlevel payee, votesAt s nBlockHeight mnlevel payee =
    (stored s).countP (fun winner => decide (winner.nBlockHeight = nBlockHeight ∧
      winner.payeeLevel = mnlevel ∧ winner.payee = payee))
  heights : ∀ nBlockHeight, s.mapMasternodeBlocks.contains nBlockHeight = true ↔
    ∃ winner ∈ stored s, winner.nBlockHeight = nBlockHeight

/-- A winner has the level of those with its height and payee. -/
def KeepsLevels (s : CMasternodePayments) : TableAction → Prop
  | .addWinningMasternode env winnerIn =>
      (env.getBlockHash (winnerIn.nBlockHeight - 100)).isSome = true →
      s.mapMasternodePayeeVotes.contains (winnerIn.getHash sha) = false →
      ∀ winner ∈ stored s, winner.nBlockHeight = winnerIn.nBlockHeight →
        winner.payee = winnerIn.payee → winner.payeeLevel = winnerIn.payeeLevel
  | _ => True

/-- A payee has one level at a height. -/
def LevelsAgree (s : CMasternodePayments) : Prop :=
  ∀ first ∈ stored s, ∀ second ∈ stored s, first.nBlockHeight = second.nBlockHeight →
    first.payee = second.payee → first.payeeLevel = second.payeeLevel

/-- How many winners are stored for the payee at the height. -/
def winnersAt (s : CMasternodePayments) (nBlockHeight : Int) (payee : CScript) : Nat :=
  (stored s).countP (fun winner => decide (winner.nBlockHeight = nBlockHeight ∧
    winner.payee = payee))

/-- Every entry counts the winners of its height and payee and has the level of one of them. -/
structure EntriesCount (s : CMasternodePayments) : Prop where
  entries : ∀ nBlockHeight payee entry, payeeAt s nBlockHeight payee = some entry →
    entry.nVotes = winnersAt s nBlockHeight payee ∧
    ∃ winner ∈ stored s, winner.nBlockHeight = nBlockHeight ∧ winner.payee = payee ∧
      winner.payeeLevel = entry.mnlevel
  present : ∀ winner ∈ stored s, (payeeAt s winner.nBlockHeight winner.payee).isSome = true
  heights : ∀ nBlockHeight, s.mapMasternodeBlocks.contains nBlockHeight = true →
    ∃ winner ∈ stored s, winner.nBlockHeight = nBlockHeight

variable {sha} {s : CMasternodePayments}

theorem contains_of_payeeAt {nBlockHeight : Int} {payee : CScript}
    (h : (payeeAt s nBlockHeight payee).isSome = true) :
    s.mapMasternodeBlocks.contains nBlockHeight = true := by
  obtain ⟨entry, found⟩ := Option.isSome_iff_exists.mp h
  obtain ⟨block, lookup, -⟩ := Option.bind_eq_some_iff.mp found
  exact (AssocMap.contains_iff _ _).mpr ⟨block, lookup⟩

/-- With right entries, the counts are right exactly if the levels agree. -/
theorem EntriesCount.countsAgree_iff_levelsAgree (inv : EntriesCount s) :
    CountsAgree s ↔ LevelsAgree s := by
  constructor
  · intro agree
    -- the level of a stored winner is the level of its entry, or its own count would be zero
    have level : ∀ winner ∈ stored s, ∀ entry,
        payeeAt s winner.nBlockHeight winner.payee = some entry →
        entry.mnlevel = winner.payeeLevel := by
      intro winner member entry found
      by_contra other
      have count := agree.counts winner.nBlockHeight winner.payeeLevel winner.payee
      simp only [votesAt, found, if_neg other] at count
      have positive : 0 < (stored s).countP (fun u => decide
          (u.nBlockHeight = winner.nBlockHeight ∧ u.payeeLevel = winner.payeeLevel ∧
            u.payee = winner.payee)) :=
        List.countP_pos_iff.mpr ⟨winner, member, by simp⟩
      omega
    intro first memberFirst second memberSecond height payee
    obtain ⟨entry, found⟩ := Option.isSome_iff_exists.mp (inv.present first memberFirst)
    have left := level first memberFirst entry found
    have right := level second memberSecond entry (by rw [← height, ← payee]; exact found)
    exact left.symm.trans right
  · intro agree
    constructor
    · intro nBlockHeight mnlevel payee
      unfold votesAt
      cases found : payeeAt s nBlockHeight payee with
      | none =>
        symm
        rw [Int.natCast_eq_zero, List.countP_eq_zero]
        intro winner member matched
        have matched := of_decide_eq_true matched
        have present := inv.present winner member
        rw [matched.1, matched.2.2, found] at present
        cases present
      | some entry =>
        obtain ⟨count, winner, member, height, same, level⟩ := inv.entries _ _ _ found
        have levels : ∀ u ∈ stored s, u.nBlockHeight = nBlockHeight → u.payee = payee →
            u.payeeLevel = entry.mnlevel := by
          intro u memberU heightU payeeU
          rw [← level]
          exact agree u memberU winner member (heightU.trans height.symm) (payeeU.trans same.symm)
        by_cases equal : entry.mnlevel = mnlevel
        · simp only [if_pos equal, count, winnersAt]
          congr 1
          refine List.countP_congr fun u memberU => ?_
          simp only [decide_eq_true_eq]
          constructor
          · rintro ⟨heightU, payeeU⟩
            exact ⟨heightU, (levels u memberU heightU payeeU).trans equal, payeeU⟩
          · rintro ⟨heightU, -, payeeU⟩
            exact ⟨heightU, payeeU⟩
        · simp only [if_neg equal]
          symm
          rw [Int.natCast_eq_zero, List.countP_eq_zero]
          intro u memberU matched
          have matched := of_decide_eq_true matched
          exact equal ((levels u memberU matched.1 matched.2.2).symm.trans matched.2.1)
    · intro nBlockHeight
      refine ⟨inv.heights nBlockHeight, ?_⟩
      rintro ⟨winner, member, rfl⟩
      exact contains_of_payeeAt (inv.present winner member)

theorem stored_storeWinner {winner : CMasternodePaymentWinner}
    (fresh : s.mapMasternodePayeeVotes.contains (winner.getHash sha) = false) :
    stored (storeWinner sha s winner) = winner :: stored s := by
  have absent : winner.getHash sha ∉ s.mapMasternodePayeeVotes :=
    AList.lookup_eq_none.mp ((AssocMap.contains_eq_false_iff _ _).mp fresh)
  show (s.mapMasternodePayeeVotes.insert (winner.getHash sha) winner).entries.map Sigma.snd = _
  rw [AList.entries_insert_of_notMem absent]
  rfl

theorem EntriesCount.store (inv : EntriesCount s) {winner : CMasternodePaymentWinner}
    (fresh : s.mapMasternodePayeeVotes.contains (winner.getHash sha) = false) :
    EntriesCount (storeWinner sha s winner) := by
  have members := stored_storeWinner fresh
  constructor
  · intro nBlockHeight payee entry found
    rw [payeeAt_storeWinner] at found
    rw [winnersAt, members, List.countP_cons]
    split at found
    · rename_i here
      obtain ⟨rfl, rfl⟩ := here
      obtain rfl := Option.some.inj found
      simp only [and_self, decide_true, ↓reduceIte]
      cases before : payeeAt s winner.nBlockHeight winner.payee with
      | none =>
        have none : winnersAt s winner.nBlockHeight winner.payee = 0 := by
          rw [winnersAt, List.countP_eq_zero]
          intro u member matched
          have matched := of_decide_eq_true matched
          have present := inv.present u member
          rw [matched.1, matched.2, before] at present
          cases present
        unfold winnersAt at none
        rw [none]
        exact ⟨rfl, winner, List.mem_cons_self, rfl, rfl, rfl⟩
      | some entry =>
        obtain ⟨count, u, member, height, same, level⟩ := inv.entries _ _ _ before
        refine ⟨?_, u, List.mem_cons_of_mem _ member, height, same, level⟩
        unfold winnersAt at count
        simp only [withVote, Option.map_some, Option.getD_some]
        omega
    · rename_i other
      obtain ⟨count, u, member, height, same, level⟩ := inv.entries _ _ _ found
      refine ⟨?_, u, List.mem_cons_of_mem _ member, height, same, level⟩
      have apart : ¬ (winner.nBlockHeight = nBlockHeight ∧ winner.payee = payee) := by
        rintro ⟨rfl, rfl⟩
        exact other ⟨rfl, rfl⟩
      simp only [apart, decide_false, Bool.false_eq_true, ↓reduceIte, Nat.add_zero]
      exact count
  · intro u member
    rw [members] at member
    rw [payeeAt_storeWinner]
    split
    · rfl
    rename_i other
    rcases List.mem_cons.mp member with rfl | before
    · exact absurd ⟨rfl, rfl⟩ other
    · exact inv.present u before
  · intro nBlockHeight contained
    rw [members]
    by_cases height : nBlockHeight = winner.nBlockHeight
    · exact ⟨winner, List.mem_cons_self, height.symm⟩
    rw [AssocMap.contains_iff] at contained
    obtain ⟨block, found⟩ := contained
    have found : (s.mapMasternodeBlocks.insert winner.nBlockHeight _).lookup nBlockHeight =
      some block := found
    rw [AList.lookup_insert_ne height] at found
    obtain ⟨u, before, same⟩ := inv.heights nBlockHeight
      ((AssocMap.contains_iff _ _).mpr ⟨block, found⟩)
    exact ⟨u, List.mem_cons_of_mem _ before, same⟩

theorem stored_retain (keep : CMasternodePaymentWinner → Bool)
    (votes : AssocMap UInt256 CMasternodePaymentWinner) :
    (votes.retain (fun _ winner => keep winner)).entries.map Sigma.snd =
      (votes.entries.map Sigma.snd).filter keep := by
  rw [List.filter_map]
  rfl

/-- The entries after the old heights are cleaned. -/
theorem EntriesCount.clean (inv : EntriesCount s) (env : PaymentsEnv) :
    EntriesCount (cleanPaymentList env s) := by
  unfold cleanPaymentList
  split
  · exact inv
  set old := (s.mapMasternodePayeeVotes.entries.map (fun e => e.2.nBlockHeight)).filter
    (tooOld env) with hold
  have heightOld : ∀ nBlockHeight, nBlockHeight ∈ old ↔ tooOld env nBlockHeight = true ∧
      ∃ winner ∈ stored s, winner.nBlockHeight = nBlockHeight := by
    intro nBlockHeight
    simp only [hold, stored, List.mem_filter, List.mem_map]
    constructor
    · rintro ⟨⟨e, member, rfl⟩, isOld⟩
      exact ⟨isOld, e.2, ⟨e, member, rfl⟩, rfl⟩
    · rintro ⟨isOld, -, ⟨e, member, rfl⟩, rfl⟩
      exact ⟨⟨e, member, rfl⟩, isOld⟩
  have survives : ∀ winner ∈ stored s, winner.nBlockHeight ∉ old →
      tooOld env winner.nBlockHeight = false := by
    intro winner member young
    by_contra isOld
    exact young ((heightOld _).mpr ⟨by simpa using isOld, winner, member, rfl⟩)
  have lookups : ∀ nBlockHeight payee, payeeAt { s with
      mapMasternodePayeeVotes := s.mapMasternodePayeeVotes.retain
        (fun _ winner => !tooOld env winner.nBlockHeight)
      mapMasternodeBlocks := s.mapMasternodeBlocks.eraseAll old } nBlockHeight payee =
      if nBlockHeight ∈ old then none else payeeAt s nBlockHeight payee := by
    intro nBlockHeight payee
    simp only [payeeAt, AssocMap.lookup_eraseAll]
    split <;> rfl
  have members := stored_retain (fun winner => !tooOld env winner.nBlockHeight)
    s.mapMasternodePayeeVotes
  constructor
  · intro nBlockHeight payee entry found
    rw [lookups] at found
    split at found
    · cases found
    rename_i young
    obtain ⟨count, u, member, height, same, level⟩ := inv.entries _ _ _ found
    have left : tooOld env nBlockHeight = false := by
      rw [← height]
      exact survives u member (by rw [height]; exact young)
    refine ⟨?_, u, ?_, height, same, level⟩
    · rw [count, winnersAt, winnersAt, stored, stored, members, List.countP_filter]
      congr 1
      refine List.countP_congr fun v _ => ?_
      simp only [Bool.and_eq_true, decide_eq_true_eq, Bool.not_eq_true']
      constructor
      · rintro ⟨heightV, payeeV⟩
        exact ⟨⟨heightV, payeeV⟩, by rw [heightV]; exact left⟩
      · exact And.left
    · show u ∈ stored _
      rw [stored, members, List.mem_filter, height, left]
      exact ⟨member, rfl⟩
  · intro u member
    rw [stored, members, List.mem_filter] at member
    rw [lookups, if_neg]
    · exact inv.present u member.1
    intro isOld
    have := ((heightOld _).mp isOld).1
    rw [this] at member
    cases member.2
  · intro nBlockHeight contained
    rw [AssocMap.contains_iff] at contained
    obtain ⟨block, found⟩ := contained
    rw [AssocMap.lookup_eraseAll] at found
    split at found
    · cases found
    rename_i young
    obtain ⟨u, member, rfl⟩ := inv.heights nBlockHeight
      ((AssocMap.contains_iff _ _).mpr ⟨block, found⟩)
    refine ⟨u, ?_, rfl⟩
    rw [stored, members, List.mem_filter, survives u member young]
    exact ⟨member, rfl⟩

theorem EntriesCount.step (inv : EntriesCount s) (a : TableAction) :
    EntriesCount (tableStep sha s a) := by
  cases a with
  | addWinningMasternode env winnerIn =>
    simp only [tableStep, addWinningMasternode]
    cases env.getBlockHash (winnerIn.nBlockHeight - 100) with
    | none => exact inv
    | some hash =>
      by_cases present : s.mapMasternodePayeeVotes.contains (winnerIn.getHash sha) = true
      · simp only [present, ↓reduceIte]
        exact inv
      · simp only [present, ↓reduceIte, Bool.false_eq_true]
        exact inv.store (by simpa using present)
  | cleanPaymentList env => exact inv.clean env
  | clear =>
    constructor
    · intro _ _ _ found
      cases found
    · intro _ member
      cases member
    · intro _ contained
      cases contained

theorem LevelsAgree.of_subset {s' : CMasternodePayments} (agree : LevelsAgree s)
    (subset : stored s' ⊆ stored s) : LevelsAgree s' :=
  fun first memberFirst second memberSecond =>
    agree first (subset memberFirst) second (subset memberSecond)

/-- A call keeps the levels together exactly if the winner it adds has the right one. -/
theorem LevelsAgree.step_iff (agree : LevelsAgree s) (a : TableAction) :
    LevelsAgree (tableStep sha s a) ↔ KeepsLevels sha s a := by
  cases a with
  | addWinningMasternode env winnerIn =>
    simp only [tableStep, addWinningMasternode, KeepsLevels]
    cases block : env.getBlockHash (winnerIn.nBlockHeight - 100) with
    | none => simpa using agree
    | some hash =>
      by_cases present : s.mapMasternodePayeeVotes.contains (winnerIn.getHash sha) = true
      · simpa [present] using agree
      have fresh : s.mapMasternodePayeeVotes.contains (winnerIn.getHash sha) = false := by
        simpa using present
      have members := stored_storeWinner fresh
      simp only [fresh, Bool.false_eq_true, ↓reduceIte, Option.isSome_some, forall_const]
      constructor
      · intro after winner member
        exact after winner (by rw [members]; exact List.mem_cons_of_mem _ member) winnerIn
          (by rw [members]; exact List.mem_cons_self)
      intro level first memberFirst second memberSecond height payee
      rw [members] at memberFirst memberSecond
      rcases List.mem_cons.mp memberFirst with rfl | before
      · rcases List.mem_cons.mp memberSecond with rfl | before'
        · rfl
        · exact (level second before' height.symm payee.symm).symm
      · rcases List.mem_cons.mp memberSecond with rfl | before'
        · exact level first before height payee
        · exact agree first before second before' height payee
  | cleanPaymentList env =>
    refine ⟨fun _ => trivial, fun _ => agree.of_subset ?_⟩
    simp only [tableStep, cleanPaymentList]
    split
    · exact List.Subset.refl _
    · rw [stored, stored_retain (fun winner => !tooOld env winner.nBlockHeight)]
      exact List.filter_subset_self _
  | clear => exact ⟨fun _ => trivial, fun _ _ member => by cases member⟩

theorem entriesCount_init : EntriesCount .init where
  entries := fun _ _ _ found => by cases found
  present := fun _ member => by cases member
  heights := fun _ contained => by cases contained

end Counts

/-- The counts are right after every one of a sequence of calls exactly when no winner is added
whose level is not the one of the winners stored for its height and payee. -/
theorem countsAgree_iff (sha : WinnerHash) (actions : List TableAction) :
    (∀ part, part <+: actions → CountsAgree (run (tableStep sha) .init part)) ↔
      AllSteps (tableStep sha) (KeepsLevels sha) .init actions := by
  have start : LevelsAgree .init := fun _ member => by cases member
  have levels : (∀ part, part <+: actions → LevelsAgree (run (tableStep sha) .init part)) ↔
      AllSteps (tableStep sha) (KeepsLevels sha) .init actions :=
    forall_prefix_iff_allSteps (I := EntriesCount) (fun _ a inv => inv.step a)
      (fun _ a _ agree => agree.step_iff a) entriesCount_init start
  rw [← levels]
  refine forall_congr' fun part => imp_congr_right fun _ => ?_
  refine EntriesCount.countsAgree_iff_levelsAgree ?_
  have always : AllSteps (tableStep sha) (fun _ _ => True) .init part :=
    AllSteps.of_forall (fun _ _ _ => trivial) _
  exact always.invariant (I := EntriesCount) (fun _ a inv _ => inv.step a) entriesCount_init

/-- Two winners of one height and payee with different levels are counted for the first level. -/
theorem twoLevels_one_count : ¬ ∀ sha actions part, part <+: actions →
    CountsAgree (run (tableStep sha) .init part) := by
  intro claim
  let first : CMasternodePaymentWinner := { sampleWinner 1000 [1] [1] with payeeLevel := 1 }
  let second : CMasternodePaymentWinner := ⟨⟨⟨50, 1⟩, [], 0⟩, 1000, [1], [1], 2⟩
  let actions : List TableAction :=
    [.addWinningMasternode paymentsEnv first, .addWinningMasternode paymentsEnv second]
  have agree := claim sampleSha actions actions (List.prefix_refl _)
  have counts := agree.counts 1000 2 [1]
  exact absurd counts (by decide)

/-! ## Messages in another order -/

section Order

variable (sha : WinnerHash)

/-- Is the winner of a valid message added? -/
def Stores (binding : Bool) (s : CMasternodePayments) (winner : CMasternodePaymentWinner) : Prop :=
  s.mapMasternodePayeeVotes.contains (winner.getHash sha) = false ∧
    (binding = true → ¬ Recorded s winner)

/-- Is its height recorded? -/
def Records (s : CMasternodePayments) (winner : CMasternodePaymentWinner) : Prop :=
  s.mapMasternodePayeeVotes.contains (winner.getHash sha) = false ∧ ¬ Recorded s winner

instance (binding : Bool) (s : CMasternodePayments) (winner : CMasternodePaymentWinner) :
    Decidable (Stores sha binding s winner) :=
  inferInstanceAs (Decidable (_ ∧ _))

instance (s : CMasternodePayments) (winner : CMasternodePaymentWinner) :
    Decidable (Records sha s winner) :=
  inferInstanceAs (Decidable (_ ∧ _))

/-- The message carries `winner` and passes every check besides `CanVote`. -/
structure Carries (m : WinnerMessage) (winner : CMasternodePaymentWinner) : Prop where
  handled : m.handled = true
  level : withLevel m.env m.winner = some winner
  valid : winner.isValid m.env = true
  window : inWindow m.env m.slack winner = true
  signed : afterCanVote m.env winner = true

/-- The same entries in every look-up. -/
structure SameEntries (s s' : CMasternodePayments) : Prop where
  votes : ∀ k, s.mapMasternodePayeeVotes.lookup k = s'.mapMasternodePayeeVotes.lookup k
  last : ∀ k, s.mapMasternodesLastVote.lookup k = s'.mapMasternodesLastVote.lookup k
  payees : ∀ nBlockHeight payee, payeeAt s nBlockHeight payee = payeeAt s' nBlockHeight payee

/-- The winners are the same and count alike. -/
structure SameTable (s s' : CMasternodePayments) : Prop where
  winners : ∀ k, s.mapMasternodePayeeVotes.lookup k = s'.mapMasternodePayeeVotes.lookup k
  counts : ∀ nBlockHeight mnlevel payee,
    votesAt s nBlockHeight mnlevel payee = votesAt s' nBlockHeight mnlevel payee

theorem SameEntries.equivalence : Equivalence SameEntries where
  refl := fun _ => ⟨fun _ => rfl, fun _ => rfl, fun _ _ => rfl⟩
  symm := fun h => ⟨fun k => (h.votes k).symm, fun k => (h.last k).symm,
    fun n payee => (h.payees n payee).symm⟩
  trans := fun h h' => ⟨fun k => (h.votes k).trans (h'.votes k),
    fun k => (h.last k).trans (h'.last k), fun n payee => (h.payees n payee).trans (h'.payees n payee)⟩

variable {sha} {s s' : CMasternodePayments} {winner other : CMasternodePaymentWinner}

section

variable (h : SameEntries s s')
include h

theorem SameEntries.sameTable : SameTable s s' :=
  ⟨h.votes, fun n level payee => by unfold votesAt; rw [h.payees]⟩

theorem SameEntries.recorded : Recorded s winner ↔ Recorded s' winner := by
  unfold Recorded
  rw [h.last]

theorem SameEntries.contains (k : UInt256) :
    s.mapMasternodePayeeVotes.contains k = s'.mapMasternodePayeeVotes.contains k := by
  unfold AssocMap.contains
  rw [h.votes]

theorem SameEntries.record (winner : CMasternodePaymentWinner) :
    SameEntries (record s winner) (record s' winner) := by
  refine ⟨h.votes, fun k => ?_, h.payees⟩
  show (s.mapMasternodesLastVote.insert _ _).lookup k =
    (s'.mapMasternodesLastVote.insert _ _).lookup k
  rw [AssocMap.lookup_insert_eq, AssocMap.lookup_insert_eq, h.last]

theorem SameEntries.storeWinner (winner : CMasternodePaymentWinner) :
    SameEntries (storeWinner sha s winner) (storeWinner sha s' winner) := by
  refine ⟨fun k => ?_, h.last, fun n payee => ?_⟩
  · show (s.mapMasternodePayeeVotes.insert _ winner).lookup k =
      (s'.mapMasternodePayeeVotes.insert _ winner).lookup k
    rw [AssocMap.lookup_insert_eq, AssocMap.lookup_insert_eq, h.votes]
  · rw [payeeAt_storeWinner, payeeAt_storeWinner, h.payees, h.payees]

theorem SameEntries.receiveStep (m : WinnerMessage) :
    SameEntries (receiveStep sha s m) (receiveStep sha s' m) := by
  have arrives : reached sha s m = reached sha s' m := by
    unfold reached beforeCanVote
    simp only [h.contains]
  unfold Payments.receiveStep
  rw [receive_eq, receive_eq, arrives]
  cases reached sha s' m with
  | none => exact h
  | some winner =>
    by_cases recorded : Recorded s' winner
    · simp only [h.recorded, recorded, ↓reduceIte]
      split
      · exact h.storeWinner winner
      · exact h
    simp only [h.recorded, recorded, ↓reduceIte]
    split
    · exact (h.record winner).storeWinner winner
    · exact h.record winner

end

/-- What a valid message does to each look-up. -/
structure Casts (sha : WinnerHash) (binding : Bool) (winner : CMasternodePaymentWinner)
    (s s' : CMasternodePayments) : Prop where
  votes : ∀ k, s'.mapMasternodePayeeVotes.lookup k =
    if Stores sha binding s winner ∧ k = winner.getHash sha then some winner
      else s.mapMasternodePayeeVotes.lookup k
  last : ∀ k, s'.mapMasternodesLastVote.lookup k =
    if Records sha s winner ∧ k = winner.key then some winner.nBlockHeight
      else s.mapMasternodesLastVote.lookup k
  payees : ∀ n payee, payeeAt s' n payee =
    if Stores sha binding s winner ∧ n = winner.nBlockHeight ∧
        payee = winner.payee then
      some (withVote (payeeAt s winner.nBlockHeight winner.payee) winner)
    else payeeAt s n payee

theorem casts_of_carries {m : WinnerMessage} (carries : Carries m winner) :
    Casts sha m.binding winner s (receiveStep sha s m) := by
  unfold receiveStep
  rw [receive_eq]
  have arrives : reached sha s m =
      if s.mapMasternodePayeeVotes.contains (winner.getHash sha) then none else some winner := by
    unfold reached beforeCanVote
    simp [carries.handled, carries.level, carries.valid, carries.window]
  rw [arrives]
  by_cases present : s.mapMasternodePayeeVotes.contains (winner.getHash sha) = true
  · have noStore : ¬ Stores sha m.binding s winner := by
      rintro ⟨fresh, -⟩
      rw [present] at fresh
      cases fresh
    have noRecord : ¬ Records sha s winner := by
      rintro ⟨fresh, -⟩
      rw [present] at fresh
      cases fresh
    simp only [present, ↓reduceIte]
    exact ⟨by simp [noStore], by simp [noRecord], by simp [noStore]⟩
  have fresh : s.mapMasternodePayeeVotes.contains (winner.getHash sha) = false := by
    simpa using present
  have lookups (t : CMasternodePayments) (k : UInt256) :
      (storeWinner sha t winner).mapMasternodePayeeVotes.lookup k =
        if k = winner.getHash sha then some winner else t.mapMasternodePayeeVotes.lookup k :=
    AssocMap.lookup_insert_eq _ _ _ _
  simp only [fresh, Bool.false_eq_true, ↓reduceIte, carries.signed, Bool.and_true]
  by_cases recorded : Recorded s winner
  · have noRecord : ¬ Records sha s winner := fun h => h.2 recorded
    rw [if_pos recorded]
    cases binds : m.binding with
    | true =>
      have noStore : ¬ Stores sha true s winner := fun h => h.2 rfl recorded
      exact ⟨by simp [noStore], by simp [noRecord], by simp [noStore]⟩
    | false =>
      have store : Stores sha false s winner := ⟨fresh, fun binds => by cases binds⟩
      refine ⟨?_, ?_, ?_⟩
      · simp [store, lookups]
      · simp only [noRecord, false_and, ↓reduceIte]
        exact fun _ => rfl
      · simp [store, payeeAt_storeWinner]
  · have recordIt : Records sha s winner := ⟨fresh, recorded⟩
    have store : Stores sha m.binding s winner := ⟨fresh, fun _ => recorded⟩
    rw [if_neg recorded]
    refine ⟨?_, ?_, ?_⟩
    · simp only [store, true_and, lookups]
      exact fun _ => rfl
    · simp only [recordIt, true_and]
      exact fun k => AssocMap.lookup_insert_eq _ _ _ _
    · simp only [store, true_and, payeeAt_storeWinner]
      exact fun _ _ => rfl

/-- A vote of another key and another hash does not change what is done with a winner. -/
theorem Casts.same_fate {binding : Bool} (casts : Casts sha binding other s s')
    (binding' : Bool) (keys : winner.key ≠ other.key)
    (hashes : winner.getHash sha ≠ other.getHash sha) :
    (Stores sha binding' s' winner ↔ Stores sha binding' s winner) ∧
      (Records sha s' winner ↔ Records sha s winner) := by
  have votes : s'.mapMasternodePayeeVotes.contains (winner.getHash sha) =
      s.mapMasternodePayeeVotes.contains (winner.getHash sha) := by
    unfold AssocMap.contains
    rw [casts.votes]
    simp [hashes]
  have last : Recorded s' winner ↔ Recorded s winner := by
    unfold Recorded
    rw [casts.last]
    simp [keys]
  unfold Stores Records
  rw [votes, last]
  exact ⟨Iff.rfl, Iff.rfl⟩

/-- Two votes for one payee leave the same entry in either order. -/
theorem withVote_comm (entry : Option CMasternodePayee) (payee : winner.payee = other.payee)
    (level : winner.payeeLevel = other.payeeLevel) :
    withVote (some (withVote entry winner)) other = withVote (some (withVote entry other)) winner := by
  cases entry with
  | none => simp [withVote, payee, level]
  | some entry => rfl

/-- Two votes of different keys and hashes may be cast in either order. -/
theorem Casts.comm {binding binding' : Bool} {mine theirs both both' : CMasternodePayments}
    (first : Casts sha binding winner s mine) (second : Casts sha binding' other mine both)
    (first' : Casts sha binding' other s theirs) (second' : Casts sha binding winner theirs both')
    (keys : winner.key ≠ other.key) (hashes : winner.getHash sha ≠ other.getHash sha)
    (levels : winner.payee = other.payee → winner.payeeLevel = other.payeeLevel) :
    SameEntries both both' := by
  obtain ⟨storesMine, recordsMine⟩ := first'.same_fate binding keys hashes
  obtain ⟨storesOther, recordsOther⟩ :=
    first.same_fate binding' keys.symm hashes.symm
  constructor
  · intro k
    simp only [second.votes, second'.votes, first.votes, first'.votes, storesMine, storesOther]
    by_cases here : k = winner.getHash sha
    · subst here
      simp [hashes]
    · simp [here]
  · intro k
    simp only [second.last, second'.last, first.last, first'.last, recordsMine, recordsOther]
    by_cases here : k = winner.key
    · subst here
      simp [keys]
    · simp [here]
  intro n payee
  simp only [second.payees, second'.payees, first.payees, first'.payees, storesMine, storesOther]
  by_cases here : Stores sha binding s winner ∧ n = winner.nBlockHeight ∧ payee = winner.payee
  · by_cases there : Stores sha binding' s other ∧ n = other.nBlockHeight ∧ payee = other.payee
    · have height : winner.nBlockHeight = other.nBlockHeight := here.2.1.symm.trans there.2.1
      have same : winner.payee = other.payee := here.2.2.symm.trans there.2.2
      simp only [here, there, height, same, and_self, ↓reduceIte]
      rw [withVote_comm _ same (levels same)]
    · obtain ⟨stores, rfl, rfl⟩ := here
      simp only [stores, there, and_self, ↓reduceIte]
  · by_cases there : Stores sha binding' s other ∧ n = other.nBlockHeight ∧ payee = other.payee
    · obtain ⟨stores, rfl, rfl⟩ := there
      simp only [stores, here, and_self, ↓reduceIte]
    · simp only [here, there, ↓reduceIte]

/-- The key under which `CanVote` looks for the winner of a message. -/
def WinnerMessage.key (m : WinnerMessage) : Option UInt256 :=
  (withLevel m.env m.winner).map CMasternodePaymentWinner.key

theorem getHash_of_carries {m : WinnerMessage} (carries : Carries m winner) :
    winner.getHash sha = m.winner.getHash sha := by
  obtain ⟨mn, -, rfl⟩ := Option.map_eq_some_iff.mp carries.level
  rfl

end Order

/-- Valid messages leave the same table in every two orders in which the messages of each
masternode and level come in one order, if no two masternodes' messages share a hash. -/
theorem sameTable_of_reordered (sha : WinnerHash) (env : PaymentsEnv) (s : CMasternodePayments)
    (ms ms' : List WinnerMessage) (valid : ∀ m ∈ ms, m.env = env ∧ ∃ winner, Carries m winner)
    (hashes : ∀ m ∈ ms, ∀ m' ∈ ms, m.key ≠ m'.key → m.winner.getHash sha ≠ m'.winner.getHash sha)
    (reordered : ∀ key, ms.filter (fun m => m.key = key) = ms'.filter (fun m => m.key = key)) :
    SameTable (run (receiveStep sha) s ms) (run (receiveStep sha) s ms') := by
  refine SameEntries.sameTable (run_of_filter_eq SameEntries.equivalence
    (fun m _ _ h => h.receiveStep m) ?_ reordered s)
  intro m member m' member' keys s
  have apart := hashes m member m' member' keys
  obtain ⟨same, winner, carries⟩ := valid m member
  obtain ⟨same', winner', carries'⟩ := valid m' member'
  rw [← getHash_of_carries carries, ← getHash_of_carries carries'] at apart
  have other : winner.key ≠ winner'.key := by
    intro equal
    apply keys
    unfold WinnerMessage.key
    rw [carries.level, carries'.level, Option.map_some, Option.map_some, equal]
  refine Casts.comm (casts_of_carries carries') (casts_of_carries carries)
    (casts_of_carries carries) (casts_of_carries carries') other.symm apart.symm fun payee => ?_
  -- the level of a winner is the one of the masternode with its payee
  have level := carries.level
  have level' := carries'.level
  rw [same] at level
  rw [same'] at level'
  obtain ⟨mn, found, rfl⟩ := Option.map_eq_some_iff.mp level
  obtain ⟨mn', found', rfl⟩ := Option.map_eq_some_iff.mp level'
  have payee : m'.winner.payee = m.winner.payee := payee
  rw [payee, found] at found'
  rw [Option.some.inj found']

def signedMessage (nBlockHeight : Int) : WinnerMessage :=
  .mnw paymentsEnv (sampleWinner nBlockHeight [1] [1])

def otherMessage (nBlockHeight : Int) : WinnerMessage :=
  .mnw paymentsEnv ⟨⟨⟨50, 1⟩, [], 0⟩, nBlockHeight, [1, 2], [1], 0⟩

/-- The messages of two masternodes may come in either order. -/
theorem twoMasternodes_sameTable :
    SameTable (run (receiveStep sampleSha) .init [signedMessage 1001, otherMessage 1000])
      (run (receiveStep sampleSha) .init [otherMessage 1000, signedMessage 1001]) := by
  have keys : (signedMessage 1001).key ≠ (otherMessage 1000).key := by decide
  refine sameTable_of_reordered sampleSha paymentsEnv .init _ _ ?_ ?_ ?_
  · intro m member
    simp only [List.mem_cons, List.not_mem_nil, or_false] at member
    rcases member with rfl | rfl
    · exact ⟨rfl, { sampleWinner 1001 [1] [1] with payeeLevel := 1 }, by decide, by decide,
        by decide, by decide, by decide⟩
    · exact ⟨rfl, ⟨⟨⟨50, 1⟩, [], 0⟩, 1000, [1, 2], [1], 1⟩, by decide, by decide, by decide,
        by decide, by decide⟩
  · intro m member m' member' apart
    simp only [List.mem_cons, List.not_mem_nil, or_false] at member member'
    rcases member with rfl | rfl
    · rcases member' with rfl | rfl
      · exact absurd rfl apart
      · decide
    · rcases member' with rfl | rfl
      · decide
      · exact absurd rfl apart
  · intro key
    by_cases first : (signedMessage 1001).key = key
    · have second : (otherMessage 1000).key ≠ key := fun equal => keys (first.trans equal.symm)
      simp [first, second]
    · simp [first, List.filter_cons]

/-- Who votes, for which height and level. -/
def WinnerMessage.vote (m : WinnerMessage) : COutPoint × Int × Option Nat :=
  (m.winner.vinMasternode.prevout, m.winner.nBlockHeight,
    (withLevel m.env m.winner).map CMasternodePaymentWinner.payeeLevel)

/-- One masternode's votes for two heights are both counted in one order only. -/
theorem laterVote_first :
    ¬ ∀ (sha : WinnerHash) (env : PaymentsEnv) (s : CMasternodePayments)
      (ms ms' : List WinnerMessage), (∀ m ∈ ms, m.env = env ∧ ∃ winner, Carries m winner) →
      (ms.map (fun m => m.winner.getHash sha)).Nodup → (ms.map WinnerMessage.vote).Nodup →
      ms.Perm ms' → SameTable (run (receiveStep sha) s ms) (run (receiveStep sha) s ms') := by
  intro claim
  have same := claim sampleSha paymentsEnv .init [signedMessage 1000, signedMessage 1001]
    [signedMessage 1001, signedMessage 1000] ?_ (by decide) (by decide) (List.Perm.swap _ _ _)
  · exact absurd (same.winners 8052) (by decide)
  intro m member
  simp only [List.mem_cons, List.not_mem_nil, or_false] at member
  rcases member with rfl | rfl
  · exact ⟨rfl, { sampleWinner 1000 [1] [1] with payeeLevel := 1 }, by decide, by decide,
      by decide, by decide, by decide⟩
  · exact ⟨rfl, { sampleWinner 1001 [1] [1] with payeeLevel := 1 }, by decide, by decide,
      by decide, by decide, by decide⟩

end Esbcoin.Payments
