import Esbcoin.Masternode.LastVote

/-!
# One vote of a masternode for a height and a level

`CanVote` is asked for a winner of its own message and for a winner of a relayed list; a winner of
an answer to a sync request and a vote of the node's own masternode pass it by.
-/

namespace Esbcoin.Payments

open StepRun

/-- What happens to the vote tables of a node. -/
inductive PaymentsAction where
  | message (m : WinnerMessage)
  | processBlock (env : PaymentsEnv) (nBlockHeight : Int)
  | cleanPaymentList (env : PaymentsEnv)

/-- A step of the payments. -/
def paymentsStep (sha : WinnerHash) (s : CMasternodePayments) : PaymentsAction → CMasternodePayments
  | .message m => receiveStep sha s m
  | .processBlock env nBlockHeight => processBlock sha env s nBlockHeight
  | .cleanPaymentList env => cleanPaymentList env s

/-- Votes of one masternode for one height and level. -/
def SameVote (first second : CMasternodePaymentWinner) : Prop :=
  first.vinMasternode.prevout = second.vinMasternode.prevout ∧
    first.nBlockHeight = second.nBlockHeight ∧ first.payeeLevel = second.payeeLevel

/-- No two distinct winners of one vote are ever counted in a run from the empty tables. -/
def OneVoteEach (sha : WinnerHash) (actions : List PaymentsAction) : Prop :=
  ∀ first second, first <+: actions → second <+: actions → ∀ k k' winner winner',
    (run (paymentsStep sha) .init first).mapMasternodePayeeVotes.lookup k = some winner →
    (run (paymentsStep sha) .init second).mapMasternodePayeeVotes.lookup k' = some winner' →
    SameVote winner winner' → k = k'

/-- The winners counted so far, and those the node made itself. -/
structure History where
  counted : List CMasternodePaymentWinner
  own : List CMasternodePaymentWinner

/-- The winners in the tables. -/
def stored (s : CMasternodePayments) : List CMasternodePaymentWinner :=
  s.mapMasternodePayeeVotes.entries.map Sigma.snd

theorem mem_stored {s : CMasternodePayments} {winner : CMasternodePaymentWinner} :
    winner ∈ stored s ↔ ∃ k, s.mapMasternodePayeeVotes.lookup k = some winner := by
  unfold stored
  rw [List.mem_map]
  constructor
  · rintro ⟨⟨k, v⟩, member, rfl⟩
    exact ⟨k, AList.mem_lookup_iff.mpr member⟩
  · rintro ⟨k, found⟩
    exact ⟨⟨k, winner⟩, AList.mem_lookup_iff.mp found, rfl⟩

/-- The history behind tables `s`. -/
def History.note (h : History) (s : CMasternodePayments) : History :=
  { h with counted := h.counted ++ stored s }

section Track

variable (sha : WinnerHash)

/-- An own vote, with the history it adds to. -/
def trackVote (env : PaymentsEnv) (vin : CTxIn) (nWinnerBlockHeight : Int)
    (w : CMasternodePayments × History) (mnlevel : Nat) : CMasternodePayments × History :=
  let (s, added) := voteForLevel sha env vin nWinnerBlockHeight w.1 mnlevel
  let own := if added then w.2.own ++ (newWinner env vin w.1 nWinnerBlockHeight mnlevel).toList
    else w.2.own
  (s, History.note { w.2 with own } s)

/-- A step of the payments, with the history it adds to. -/
def trackStep (w : CMasternodePayments × History) (a : PaymentsAction) :
    CMasternodePayments × History :=
  let s := paymentsStep sha w.1 a
  match a with
  | .message _ => (s, w.2.note s)
  | .processBlock env nBlockHeight =>
    match votesWith env w.1 (nBlockHeight + 10) with
    | none => (s, w.2)
    | some vin => (s, (run (trackVote sha env vin (nBlockHeight + 10)) w CMasternode.levels).2)
  | .cleanPaymentList _ => (s, w.2)

variable (w : CMasternodePayments × History)

theorem trackStep_fst (a : PaymentsAction) : (trackStep sha w a).1 = paymentsStep sha w.1 a := by
  cases a with
  | message m => rfl
  | processBlock env nBlockHeight =>
    simp only [trackStep]
    split <;> rfl
  | cleanPaymentList env => rfl

theorem run_trackStep_fst (actions : List PaymentsAction) :
    (run (trackStep sha) w actions).1 = run (paymentsStep sha) w.1 actions := by
  induction actions generalizing w with
  | nil => rfl
  | cons a actions ih => rw [run_cons, ih, trackStep_fst, run_cons]

theorem run_trackVote_fst (env : PaymentsEnv) (vin : CTxIn) (nWinnerBlockHeight : Int)
    (w : CMasternodePayments × History) (levels : List Nat) :
    (run (trackVote sha env vin nWinnerBlockHeight) w levels).1 =
      (voteForLevels sha env vin nWinnerBlockHeight levels w.1).1 := by
  induction levels generalizing w with
  | nil => rfl
  | cons mnlevel levels ih =>
    rw [run_cons, ih]
    rfl

/-- The own vote for a level is the first one of the masternode. -/
def VotesOnce (env : PaymentsEnv) (vin : CTxIn) (nWinnerBlockHeight : Int)
    (w : CMasternodePayments × History) (mnlevel : Nat) : Prop :=
  ∀ winner, newWinner env vin w.1 nWinnerBlockHeight mnlevel = some winner →
    (env.getBlockHash (winner.nBlockHeight - 100)).isSome = true →
    ∀ v ∈ w.2.counted, SameVote v winner → v.getHash sha = winner.getHash sha

/-- What passes `CanVote` by is the first vote of its masternode for the height and level, and
what `CanVote` lets pass is not a vote the node has made itself. -/
def CountsOnce (w : CMasternodePayments × History) : PaymentsAction → Prop
  | .message m =>
      ∀ winner, reached sha w.1 m = some winner → afterCanVote m.env winner = true →
        ∀ v, SameVote v winner →
          (m.binding = true → ¬ Recorded w.1 winner → v ∈ w.2.own →
            v.getHash sha = winner.getHash sha) ∧
          (m.binding = false → v ∈ w.2.counted → v.getHash sha = winner.getHash sha)
  | .processBlock env nBlockHeight =>
      ∀ vin, votesWith env w.1 (nBlockHeight + 10) = some vin →
        AllSteps (trackVote sha env vin (nBlockHeight + 10))
          (VotesOnce sha env vin (nBlockHeight + 10)) w CMasternode.levels
  | .cleanPaymentList _ => True

/-- A counted winner is recorded or the node's own, and no vote is counted twice. -/
structure CountedOnce (w : CMasternodePayments × History) : Prop where
  filed : ∀ k winner, w.1.mapMasternodePayeeVotes.lookup k = some winner → k = winner.getHash sha
  counted : ∀ winner ∈ stored w.1, winner ∈ w.2.counted
  recorded : ∀ winner ∈ w.2.counted, winner ∈ w.2.own ∨ Recorded w.1 winner
  once : ∀ first ∈ w.2.counted, ∀ second ∈ w.2.counted, SameVote first second →
    first.getHash sha = second.getHash sha

variable {sha} {s s' : CMasternodePayments} {h : History}

variable {first second : CMasternodePaymentWinner}

theorem SameVote.symm (same : SameVote first second) : SameVote second first :=
  ⟨same.1.symm, same.2.1.symm, same.2.2.symm⟩

theorem SameVote.key (same : SameVote first second) : first.key = second.key := by
  unfold CMasternodePaymentWinner.key
  rw [same.1, same.2.2]

/-- A recorded twin makes a winner recorded. -/
theorem SameVote.recorded (same : SameVote first second) (recorded : Recorded s first) :
    Recorded s second := by
  obtain ⟨last, found, later⟩ := recorded
  exact ⟨last, by rw [← same.key]; exact found, by rw [← same.2.1]; exact later⟩

/-- The history goes on over tables that hold at most one winner `v` more than before. -/
theorem CountedOnce.note (inv : CountedOnce sha (s, h)) {own : List CMasternodePaymentWinner}
    (v : Option CMasternodePaymentWinner)
    (lookups : ∀ k winner, s'.mapMasternodePayeeVotes.lookup k = some winner →
      s.mapMasternodePayeeVotes.lookup k = some winner ∨ k = winner.getHash sha ∧ v = some winner)
    (kept : ∀ winner, Recorded s winner → Recorded s' winner)
    (owned : ∀ winner ∈ h.own, winner ∈ own)
    (known : ∀ winner, v = some winner → winner ∈ own ∨ Recorded s' winner)
    (twins : ∀ winner, v = some winner → ∀ u ∈ h.counted, SameVote u winner →
      u.getHash sha = winner.getHash sha) :
    CountedOnce sha (s', History.note { h with own } s') := by
  have members : ∀ u ∈ (History.note { h with own } s').counted, u ∈ h.counted ∨ v = some u := by
    intro u member
    rcases List.mem_append.mp member with before | now
    · exact Or.inl before
    obtain ⟨k, found⟩ := mem_stored.mp now
    rcases lookups k u found with old | ⟨-, new⟩
    · exact Or.inl (inv.counted u (mem_stored.mpr ⟨k, old⟩))
    · exact Or.inr new
  constructor
  · intro k winner found
    rcases lookups k winner found with old | ⟨filed, -⟩
    · exact inv.filed k winner old
    · exact filed
  · exact fun winner member => List.mem_append_right _ member
  · intro winner member
    rcases members winner member with before | new
    · rcases inv.recorded winner before with mine | recorded
      · exact Or.inl (owned winner mine)
      · exact Or.inr (kept winner recorded)
    · exact known winner new
  · intro first memberFirst second memberSecond same
    rcases members first memberFirst with before | new
    · rcases members second memberSecond with before' | new'
      · exact inv.once first before second before' same
      · exact twins second new' first before same
    · rcases members second memberSecond with before' | new'
      · exact (twins first new second before' same.symm).symm
      · rw [Option.some.inj (new.symm.trans new')]

/-- Tables with fewer winners and the same last votes. -/
theorem CountedOnce.forget (inv : CountedOnce sha (s, h))
    (lookups : ∀ k winner, s'.mapMasternodePayeeVotes.lookup k = some winner →
      s.mapMasternodePayeeVotes.lookup k = some winner)
    (last : s'.mapMasternodesLastVote = s.mapMasternodesLastVote) : CountedOnce sha (s', h) := by
  constructor
  · exact fun k winner found => inv.filed k winner (lookups k winner found)
  · intro winner member
    obtain ⟨k, found⟩ := mem_stored.mp member
    exact inv.counted winner (mem_stored.mpr ⟨k, lookups k winner found⟩)
  · intro winner member
    rcases inv.recorded winner member with mine | recorded
    · exact Or.inl mine
    · refine Or.inr ?_
      unfold Recorded at recorded ⊢
      rwa [last]
  · exact inv.once

theorem lookup_storeWinner (winner : CMasternodePaymentWinner) {k : UInt256}
    {u : CMasternodePaymentWinner}
    (found : (storeWinner sha s winner).mapMasternodePayeeVotes.lookup k = some u) :
    s.mapMasternodePayeeVotes.lookup k = some u ∨ k = u.getHash sha ∧ some winner = some u := by
  have found : (s.mapMasternodePayeeVotes.insert (winner.getHash sha) winner).lookup k =
    some u := found
  rw [AssocMap.lookup_insert_eq] at found
  split at found
  · rename_i equal
    obtain rfl := Option.some.inj found
    exact Or.inr ⟨equal, rfl⟩
  · exact Or.inl found

theorem countedOnce_message {m : WinnerMessage} (inv : CountedOnce sha (s, h))
    (good : CountsOnce sha (s, h) (.message m)) :
    CountedOnce sha (trackStep sha (s, h) (.message m)) := by
  have kept : ∀ winner, Recorded s winner → Recorded (receiveStep sha s m) winner :=
    fun winner recorded => recorded.receiveStep
  show CountedOnce sha (receiveStep sha s m, h.note (receiveStep sha s m))
  cases arrives : reached sha s m with
  | none =>
    have same : receiveStep sha s m = s := by
      unfold receiveStep
      rw [receive_eq, arrives]
    rw [same]
    exact inv.note none (fun _ _ => Or.inl) (fun _ => id) (fun _ => id) (fun _ new => by cases new)
      (fun _ new => by cases new)
  | some winner =>
    have recorded := recorded_receiveStep arrives
    have good := good winner arrives
    unfold receiveStep at kept recorded ⊢
    rw [receive_eq, arrives] at kept recorded ⊢
    by_cases before : Recorded s winner
    · simp only [before, ↓reduceIte] at kept recorded ⊢
      split
      · rename_i passes
        rw [if_pos passes] at kept recorded
        rw [Bool.and_eq_true, Bool.not_eq_true'] at passes
        refine inv.note (some winner) (fun k u => lookup_storeWinner winner) kept (fun _ => id) ?_ ?_
        · rintro _ ⟨⟩
          exact Or.inr recorded
        · rintro _ ⟨⟩ u member same
          exact (good passes.2 u same).2 passes.1 member
      · exact inv.note none (fun _ _ => Or.inl) (fun _ => id) (fun _ => id)
          (fun _ new => by cases new) (fun _ new => by cases new)
    simp only [before, ↓reduceIte] at kept recorded ⊢
    split
    · rename_i passes
      rw [if_pos passes] at kept recorded
      refine inv.note (some winner) (fun k u => lookup_storeWinner winner) kept (fun _ => id) ?_ ?_
      · rintro _ ⟨⟩
        exact Or.inr recorded
      rintro _ ⟨⟩ u member same
      cases binds : m.binding with
      | false => exact (good passes u same).2 binds member
      | true =>
        -- a counted twin that is recorded would have made `CanVote` refuse
        rcases inv.recorded u member with mine | twin
        · exact (good passes u same).1 binds before mine
        · exact absurd (same.recorded twin) before
    · rename_i fails
      rw [if_neg fails] at kept
      exact inv.note none (fun _ _ => Or.inl) kept (fun _ => id) (fun _ new => by cases new)
        (fun _ new => by cases new)

/-- One turn of the loop of `ProcessBlock` adds nothing, or stores the winner it makes. -/
theorem voteForLevel_cases (sha : WinnerHash) (env : PaymentsEnv) (vin : CTxIn)
    (nWinnerBlockHeight : Int) (s : CMasternodePayments) (mnlevel : Nat) :
    voteForLevel sha env vin nWinnerBlockHeight s mnlevel = (s, false) ∨
      ∃ winner, newWinner env vin s nWinnerBlockHeight mnlevel = some winner ∧
        (env.getBlockHash (winner.nBlockHeight - 100)).isSome = true ∧
        voteForLevel sha env vin nWinnerBlockHeight s mnlevel =
          (storeWinner sha s winner, true) := by
  unfold voteForLevel
  cases made : newWinner env vin s nWinnerBlockHeight mnlevel with
  | none => exact Or.inl rfl
  | some winner =>
    unfold addWinningMasternode
    cases block : env.getBlockHash (winner.nBlockHeight - 100) with
    | none =>
      refine Or.inl ?_
      simp only [block]
    | some hash =>
      by_cases present : s.mapMasternodePayeeVotes.contains (winner.getHash sha) = true
      · refine Or.inl ?_
        simp only [block, present, ↓reduceIte]
      · refine Or.inr ⟨winner, rfl, by rw [block]; rfl, ?_⟩
        simp only [block, present, ↓reduceIte, Bool.false_eq_true]

theorem countedOnce_vote {env : PaymentsEnv} {vin : CTxIn} {nWinnerBlockHeight : Int}
    {mnlevel : Nat} (inv : CountedOnce sha (s, h))
    (good : VotesOnce sha env vin nWinnerBlockHeight (s, h) mnlevel) :
    CountedOnce sha (trackVote sha env vin nWinnerBlockHeight (s, h) mnlevel) := by
  simp only [trackVote]
  rcases voteForLevel_cases sha env vin nWinnerBlockHeight s mnlevel with
    same | ⟨winner, made, block, voted⟩
  · rw [same]
    exact inv.note none (fun _ _ => Or.inl) (fun _ => id) (fun _ => id) (fun _ new => by cases new)
      (fun _ new => by cases new)
  rw [voted, made]
  refine inv.note (some winner) (fun k u => lookup_storeWinner winner) (fun _ => id)
    (fun u mine => List.mem_append_left _ mine) ?_ ?_
  · rintro _ ⟨⟩
    exact Or.inl (List.mem_append_right _ (List.mem_singleton_self _))
  · rintro _ ⟨⟩
    exact good winner made block

theorem CountedOnce.step {a : PaymentsAction} (inv : CountedOnce sha (s, h))
    (good : CountsOnce sha (s, h) a) : CountedOnce sha (trackStep sha (s, h) a) := by
  cases a with
  | message m => exact countedOnce_message inv good
  | processBlock env nBlockHeight =>
    simp only [trackStep, paymentsStep, processBlock]
    cases voter : votesWith env s (nBlockHeight + 10) with
    | none => exact inv
    | some vin =>
      simp only
      have voted := (good vin voter).invariant (I := CountedOnce sha)
        (fun w _ inv good => countedOnce_vote inv good) inv
      have tables := run_trackVote_fst sha env vin (nBlockHeight + 10) (s, h) CMasternode.levels
      generalize run (trackVote sha env vin (nBlockHeight + 10)) (s, h) CMasternode.levels = w
        at voted tables
      obtain ⟨s', h'⟩ := w
      subst tables
      refine voted.forget ?_ ?_
      · intro k winner found
        split at found
        · exact found
        · exact found
      · split <;> rfl
  | cleanPaymentList env =>
    refine inv.forget ?_ ?_
    · intro k winner found
      simp only [paymentsStep, cleanPaymentList] at found
      split at found
      · exact found
      · rw [AssocMap.lookup_retain, Option.filter_eq_some_iff] at found
        exact found.1
    · simp only [paymentsStep, cleanPaymentList]
      split <;> rfl

theorem counted_run_trackVote {env : PaymentsEnv} {vin : CTxIn} {nWinnerBlockHeight : Int}
    (levels : List Nat) :
    w.2.counted ⊆ (run (trackVote sha env vin nWinnerBlockHeight) w levels).2.counted := by
  induction levels generalizing w with
  | nil => exact List.Subset.refl _
  | cons mnlevel levels ih =>
    have turn : w.2.counted ⊆ (trackVote sha env vin nWinnerBlockHeight w mnlevel).2.counted :=
      List.subset_append_left _ _
    exact List.Subset.trans turn (ih _)

theorem counted_trackStep (a : PaymentsAction) : w.2.counted ⊆ (trackStep sha w a).2.counted := by
  cases a with
  | message m => exact List.subset_append_left _ _
  | processBlock env nBlockHeight =>
    simp only [trackStep]
    split
    · exact List.Subset.refl _
    · exact counted_run_trackVote w CMasternode.levels
  | cleanPaymentList env => exact List.Subset.refl _

theorem counted_run (actions : List PaymentsAction) :
    w.2.counted ⊆ (run (trackStep sha) w actions).2.counted := by
  induction actions generalizing w with
  | nil => exact List.Subset.refl _
  | cons a actions ih => exact List.Subset.trans (counted_trackStep w a) (ih _)

theorem countedOnce_init : CountedOnce sha (.init, ⟨[], []⟩) where
  filed := fun _ _ found => by cases found
  counted := fun _ member => by cases member
  recorded := fun _ member => by cases member
  once := fun _ member => by cases member

theorem CountedOnce.run {actions : List PaymentsAction}
    (good : AllSteps (trackStep sha) (CountsOnce sha) (.init, ⟨[], []⟩) actions) :
    CountedOnce sha (run (trackStep sha) (.init, ⟨[], []⟩) actions) :=
  good.invariant (fun _ _ inv good => inv.step good) countedOnce_init

end Track

/-- In every run in which nothing that passes `CanVote` by meets another vote of its masternode, a
masternode has at most one counted vote for a height and a level. -/
theorem oneVoteEach_of_countsOnce (sha : WinnerHash) (actions : List PaymentsAction)
    (good : AllSteps (trackStep sha) (CountsOnce sha) (.init, ⟨[], []⟩) actions) :
    OneVoteEach sha actions := by
  have inv := CountedOnce.run good
  -- every winner in the tables after some of the actions is in the history at the end
  have history : ∀ part, part <+: actions → ∀ k winner,
      (run (paymentsStep sha) .init part).mapMasternodePayeeVotes.lookup k = some winner →
      k = winner.getHash sha ∧
        winner ∈ (run (trackStep sha) (.init, ⟨[], []⟩) actions).2.counted := by
    intro part initial k winner found
    have here := CountedOnce.run (good.restrict initial)
    have tables := run_trackStep_fst sha (.init, ⟨[], []⟩) part
    rw [← tables] at found
    refine ⟨here.filed k winner found, ?_⟩
    obtain ⟨rest, rfl⟩ := initial
    rw [run_append]
    exact counted_run _ rest (here.counted winner (mem_stored.mpr ⟨k, found⟩))
  intro first second initial initial' k k' winner winner' found found' same
  obtain ⟨filed, counted⟩ := history first initial k winner found
  obtain ⟨filed', counted'⟩ := history second initial' k' winner' found'
  rw [filed, filed']
  exact inv.once winner counted winner' counted' same

/-- The votes of one masternode for one height and two payees, each as a message of its own. -/
theorem twoMessages_oneVoteEach :
    OneVoteEach sampleSha [.message (.mnw paymentsEnv (sampleWinner 1000 [1] [1])),
      .message (.mnw paymentsEnv (sampleWinner 1000 [1, 2] [1]))] := by
  have alone : ∀ (w : CMasternodePayments × History) winner, w.2.own = [] →
      CountsOnce sampleSha w (.message (.mnw paymentsEnv winner)) := by
    intro w winner none _ _ _ v _
    refine ⟨fun _ _ mine => ?_, fun passed => by cases passed⟩
    rw [none] at mine
    cases mine
  exact oneVoteEach_of_countsOnce _ _ ⟨alone _ _ rfl, alone _ _ rfl, trivial⟩

/-- In the answer to a sync request both are counted. -/
theorem syncAnswer_votes_twice : ¬ ∀ sha actions, OneVoteEach sha actions := by
  intro claim
  let actions : List PaymentsAction :=
    [.message (.mnwp paymentsEnv false (sampleWinner 1000 [1] [1])),
      .message (.mnwp paymentsEnv false (sampleWinner 1000 [1, 2] [1]))]
  have once := claim sampleSha actions actions actions (List.prefix_refl _) (List.prefix_refl _)
    8052 8054 { sampleWinner 1000 [1] [1] with payeeLevel := 1 }
    { sampleWinner 1000 [1, 2] [1] with payeeLevel := 1 } (by decide) (by decide)
    ⟨rfl, rfl, rfl⟩
  exact absurd once (by decide)

end Esbcoin.Payments
