import Esbcoin.Lib.StepRun
import Esbcoin.Masternode.SyncStages

/-!
# Restarts of the masternode sync

When the sync leaves its initial stage, `GetNextAsset` is to make every connected peer one that can
be asked again. `ClearFulfilledRequest` names three of the four marks and does nothing where the
lock is busy: the mark of the global-message stage stays (`restart_leaves_getgm`).
-/

namespace Esbcoin

open StepRun SyncNode List PeerRequest

/-- The stage in which a mark makes `Process` skip a peer. -/
def PeerRequest.stage : PeerRequest → Option SyncStage
  | getspork => some .sporks
  | mnsync => some .list
  | mnwsync => some .mnw
  | getgm => some .gm
  | mnget => none

/-- The stages in which peers are asked. -/
def SyncStage.asks : SyncStage → Bool
  | sporks | list | mnw | gm => true
  | initial | failed | finished => false

/-- Every mark that makes `Process` skip a peer was set in this run, and no stage has all peers
skipped below the threshold with none of them asked in this run. -/
structure AskedAnew (s : SyncNode) : Prop where
  fresh : s.stage.asks = true → ∀ pnode ∈ s.vNodes, ∀ request ∈ pnode.vecRequestsFulfilled,
    request.stage.isSome = true → (pnode.id, request) ∈ s.marked
  notStuck : ∀ request : PeerRequest, request.stage = some s.stage → s.vNodes ≠ [] →
    s.attempt < MASTERNODE_SYNC_THRESHOLD →
    (∀ pnode ∈ s.vNodes, pnode.hasFulfilledRequest request = true) →
    ∃ pnode ∈ s.vNodes, (pnode.id, request) ∈ s.asked

namespace SyncNode

/-- `Process` leaves the initial stage, and does not come back to it in the same call. -/
def restarts (network : Network) (c : SyncCall) (s : SyncNode) : Bool :=
  s.tick % MASTERNODE_SYNC_TIMEOUT == 0 && (s.wake c).any (fun s => s.stage == .initial) &&
    !(network != .regtest && s.hasSlept c)

/-- Every mark of a stage is one that `ClearFulfilledRequest` takes away. -/
def CanClear (c : SyncCall) (s : SyncNode) : Prop :=
  ∀ pnode ∈ s.vNodes, ∀ request ∈ pnode.vecRequestsFulfilled, request.stage.isSome = true →
    c.lockClear = true ∧ request ≠ .getgm

/-- `Process` comes to its loop over the peers. -/
def looks (network : Network) (c : SyncCall) (s : SyncNode) : Bool :=
  s.tick % MASTERNODE_SYNC_TIMEOUT == 0 && network != .regtest && !s.hasSlept c &&
    (s.isBlockchainSynced c).2 && c.lockNodes

/-- The first peer without a mark among those that are asked. -/
def nextPeer (c : SyncCall) (request : PeerRequest) (vNodes : List SyncPeer) : Option SyncPeer :=
  vNodes.find? fun pnode =>
    decide (pnode.nVersion ≥ c.minProto) && !pnode.hasFulfilledRequest request

/-- Below the threshold the next peer of the list and the winner stage is one that can be asked:
the manager does not hold the request back, and the winner stage has a tip. -/
def CanAsk (network : Network) (c : SyncCall) (s : SyncNode) (vNodes : List SyncPeer) : Prop :=
  s.attempt < MASTERNODE_SYNC_THRESHOLD →
    (s.stage = .list → s.isTimedOut c s.masternodeSync.lastMasternodeList = false →
      ∀ pnode ∈ nextPeer c .mnsync vNodes,
        heldBack network c.time s.mWeAskedForMasternodeList pnode.addr = false) ∧
    (s.stage = .mnw → s.isTimedOut c s.masternodeSync.lastMasternodeWinner = false →
      ∀ pnode ∈ nextPeer c .mnwsync vNodes,
        c.tipTime.isSome = true ∧
          heldBack network c.time s.mWeAskedForWinnerMasternodeList pnode.addr = false)

end SyncNode

/-- A call of `Process` that begins a run finds only marks that it can clear, and one that looks at
the peers below the threshold finds one that it can ask. -/
def AsksAnew (network : Network) (s : SyncNode) : SyncEvent → Prop
  | .process c => (s.restarts network c = true → s.CanClear c) ∧
      (s.looks network c = true → s.CanAsk network c s.vNodes)
  | _ => True

/-! ## Marks -/

theorem SyncPeer.mem_fulfilledRequest {pnode : SyncPeer} {request request' : PeerRequest}
    (member : request' ∈ (pnode.fulfilledRequest request).vecRequestsFulfilled) :
    request' ∈ pnode.vecRequestsFulfilled ∨ request' = request := by
  unfold fulfilledRequest at member
  split at member
  · exact Or.inl member
  · rcases mem_append.mp member with old | last
    · exact Or.inl old
    · exact Or.inr (mem_singleton.mp last)

@[simp] theorem SyncPeer.id_fulfilledRequest (pnode : SyncPeer) (request : PeerRequest) :
    (pnode.fulfilledRequest request).id = pnode.id := by
  unfold fulfilledRequest
  split <;> rfl

theorem SyncPeer.hasFulfilledRequest_iff (pnode : SyncPeer) (request : PeerRequest) :
    pnode.hasFulfilledRequest request = true ↔ request ∈ pnode.vecRequestsFulfilled := by
  simp [hasFulfilledRequest]

theorem SyncPeer.mem_cleared {pnode : SyncPeer} {request : PeerRequest}
    (member : request ∈ (((pnode.clearFulfilledRequest .getspork).clearFulfilledRequest
      .mnsync).clearFulfilledRequest .mnwsync).vecRequestsFulfilled) :
    request ∈ pnode.vecRequestsFulfilled ∧ (request.stage.isSome = true → request = .getgm) := by
  have distinct := pnode.distinct
  simp only [clearFulfilledRequest] at member
  rw [(distinct.erase _).erase _ |>.mem_erase_iff, (distinct.erase _).mem_erase_iff,
    distinct.mem_erase_iff] at member
  obtain ⟨winners, list, sporks, inside⟩ := member
  refine ⟨inside, fun named => ?_⟩
  cases request with
  | getspork => exact absurd rfl sporks
  | mnsync => exact absurd rfl list
  | mnwsync => exact absurd rfl winners
  | getgm => rfl
  | mnget => cases named

/-! ## The invariant -/

/-- The marks of the peers are those of this run, and none is of a stage to come. -/
structure MarksKept (s : SyncNode) : Prop where
  fresh : s.stage.asks = true → ∀ pnode ∈ s.vNodes, ∀ request ∈ pnode.vecRequestsFulfilled,
    request.stage.isSome = true → (pnode.id, request) ∈ s.marked
  early : s.stage.asks = true → ∀ id request stage, (id, request) ∈ s.marked →
    request.stage = some stage → stage.toNat ≤ s.stage.toNat

/-- Below the threshold, whoever was marked in this stage was asked. -/
def MarkedAsked (s : SyncNode) : Prop :=
  s.attempt < MASTERNODE_SYNC_THRESHOLD → ∀ id request, request.stage = some s.stage →
    (id, request) ∈ s.marked → (id, request) ∈ s.asked

/-- The invariant of a run. -/
structure SyncInvariant (s : SyncNode) : Prop extends MarksKept s where
  asked : MarkedAsked s

theorem PeerRequest.asks_of_stage {request : PeerRequest} {stage : SyncStage}
    (of : request.stage = some stage) : stage.asks = true := by
  cases request <;> cases of <;> rfl

theorem SyncInvariant.askedAnew {s : SyncNode} (inv : SyncInvariant s) : AskedAnew s where
  fresh := inv.fresh
  notStuck := by
    intro request of some below all
    obtain ⟨pnode, member⟩ := exists_mem_of_ne_nil s.vNodes some
    refine ⟨pnode, member, inv.asked below pnode.id request of ?_⟩
    refine inv.fresh (asks_of_stage of) pnode member request ?_ ?_
    · exact (pnode.hasFulfilledRequest_iff request).mp (all pnode member)
    · rw [of]
      rfl

/-- Where no peer is asked there is nothing to keep. -/
theorem SyncInvariant.of_quiet {s : SyncNode} (quiet : s.stage.asks = false) :
    SyncInvariant s where
  fresh := by
    rw [quiet]
    exact nofun
  early := by
    rw [quiet]
    exact nofun
  asked := by
    intro _ id request of
    rw [asks_of_stage of] at quiet
    cases quiet

section Keep

variable {s s' : SyncNode}

/-- The marks of the peers of `s'` are of this run or were there in `s`. -/
def CarriesMarks (s s' : SyncNode) : Prop :=
  ∀ pnode' ∈ s'.vNodes, ∀ request ∈ pnode'.vecRequestsFulfilled, request.stage.isSome = true →
    (pnode'.id, request) ∈ s'.marked ∨
      ∃ pnode ∈ s.vNodes, pnode.id = pnode'.id ∧ request ∈ pnode.vecRequestsFulfilled

theorem CarriesMarks.of_eq (same : s'.vNodes = s.vNodes) : CarriesMarks s s' := by
  intro pnode member request inside _
  rw [same] at member
  exact Or.inr ⟨pnode, member, rfl, inside⟩

theorem MarksKept.keep (inv : MarksKept s) (stage : s'.stage = s.stage)
    (kept : ∀ x ∈ s.marked, x ∈ s'.marked)
    (anew : ∀ x ∈ s'.marked, x ∈ s.marked ∨ x.2.stage = some s.stage)
    (carries : CarriesMarks s s') : MarksKept s' where
  fresh := by
    rw [stage]
    intro asks pnode member request inside named
    rcases carries pnode member request inside named with done | ⟨old, was, same, inside'⟩
    · exact done
    · rw [← same]
      exact kept _ (inv.fresh asks old was request inside' named)
  early := by
    rw [stage]
    intro asks id request stage' member of
    rcases anew _ member with old | here
    · exact inv.early asks id request stage' old of
    · obtain rfl := Option.some.inj (of.symm.trans here)
      exact le_refl _

theorem MarksKept.leave (inv : MarksKept s)
    (later : s'.stage.asks = true → s.stage.asks = true ∧ s.stage.toNat < s'.stage.toNat)
    (marked : s'.marked = s.marked) (same : s'.vNodes = s.vNodes) : SyncInvariant s' where
  fresh := by
    intro asks
    rw [marked, same]
    exact inv.fresh (later asks).1
  early := by
    intro asks id request stage
    rw [marked]
    intro member of
    have := inv.early (later asks).1 id request stage member of
    have := (later asks).2
    omega
  asked := by
    intro _ id request of
    rw [marked]
    intro member
    have asks := asks_of_stage of
    have := inv.early (later asks).1 id request _ member of
    have := (later asks).2
    omega

/-- The stage stays, the attempts do not fall, and whoever is marked anew below the threshold is
asked. -/
theorem SyncInvariant.keep (inv : SyncInvariant s) (stage : s'.stage = s.stage)
    (attempt : s.attempt ≤ s'.attempt) (kept : ∀ x ∈ s.marked, x ∈ s'.marked)
    (anew : ∀ x ∈ s'.marked, x ∈ s.marked ∨ (x.2.stage = some s.stage ∧
      (s'.attempt < MASTERNODE_SYNC_THRESHOLD → x ∈ s'.asked)))
    (asked : ∀ x ∈ s.asked, x ∈ s'.asked) (carries : CarriesMarks s s') : SyncInvariant s' where
  toMarksKept := inv.toMarksKept.keep stage kept
    (fun x member => (anew x member).imp_right And.left) carries
  asked := by
    intro below id request of member
    rw [stage] at of
    rcases anew _ member with old | ⟨-, sent⟩
    · exact asked _ (inv.asked (by omega) id request of old)
    · exact sent below

/-- Nothing of the run changes but the peers, which get no mark of a stage. -/
theorem SyncInvariant.carry (inv : SyncInvariant s) (stage : s'.stage = s.stage)
    (attempt : s'.attempt = s.attempt) (marked : s'.marked = s.marked) (asked : s'.asked = s.asked)
    (carries : CarriesMarks s s') : SyncInvariant s' := by
  refine inv.keep stage (le_of_eq attempt.symm) ?_ ?_ ?_ carries
  · rw [marked]
    exact fun _ => id
  · rw [marked]
    exact fun _ => Or.inl
  · rw [asked]
    exact fun _ => id

/-- Nothing of the run changes. -/
theorem SyncInvariant.same (inv : SyncInvariant s) (stage : s'.stage = s.stage)
    (attempt : s'.attempt = s.attempt) (marked : s'.marked = s.marked) (asked : s'.asked = s.asked)
    (vNodes : s'.vNodes = s.vNodes) : SyncInvariant s' :=
  inv.carry stage attempt marked asked (CarriesMarks.of_eq vNodes)

end Keep

/-! ## The loop over the peers -/

section Loop

variable {s : SyncNode} {c : SyncCall}

theorem getNextAsset_of_asks (asks : s.stage.asks = true) :
    (s.getNextAsset c).marked = s.marked ∧ (s.getNextAsset c).vNodes = s.vNodes ∧
      s.stage.toNat < (s.getNextAsset c).stage.toNat := by
  unfold getNextAsset
  cases stage : s.stage with
  | initial | failed | finished =>
    rw [stage] at asks
    cases asks
  | sporks | list | mnw | gm => exact ⟨rfl, rfl, by simp [enter, SyncStage.toNat]⟩

theorem MarksKept.getNextAsset (inv : MarksKept s) (asks : s.stage.asks = true) :
    SyncInvariant (s.getNextAsset c) := by
  obtain ⟨marked, vNodes, later⟩ := getNextAsset_of_asks (c := c) asks
  exact inv.leave (fun _ => ⟨asks, later⟩) marked vNodes

/-- A turn keeps the invariant, and what is left to ask stays so where the loop goes on. -/
structure TurnKeeps (network : Network) (c : SyncCall) (s : SyncNode)
    (done rest : List SyncPeer) (pnode : SyncPeer) (turn : SyncNode × SyncPeer × Bool) : Prop where
  kept : SyncInvariant { turn.1 with vNodes := done ++ turn.2.1 :: rest }
  goesOn : turn.2.2 = true → s.CanAsk network c (pnode :: rest) → turn.1.CanAsk network c rest

variable {network : Network} {done rest : List SyncPeer} {pnode : SyncPeer}

/-- A peer gets the mark of the stage. -/
theorem carriesMarks_fulfilled (here : s.vNodes = done ++ pnode :: rest) (request : PeerRequest)
    (marked : List (Nat × PeerRequest)) (sent : (pnode.id, request) ∈ marked) {s' : SyncNode}
    (now : s'.marked = marked) :
    CarriesMarks s { s' with vNodes := done ++ pnode.fulfilledRequest request :: rest } := by
  intro pnode' member request' inside _
  rw [here]
  rcases mem_append.mp member with before | later
  · exact Or.inr ⟨pnode', mem_append_left _ before, rfl, inside⟩
  rcases mem_cons.mp later with rfl | behind
  · rw [SyncPeer.id_fulfilledRequest]
    rcases SyncPeer.mem_fulfilledRequest inside with old | rfl
    · exact Or.inr ⟨pnode, by simp, rfl, old⟩
    · rw [now]
      exact Or.inl sent
  · exact Or.inr ⟨pnode', mem_append_right _ (mem_cons_of_mem _ behind), rfl, inside⟩

variable {request : PeerRequest}

/-- A peer is marked in its stage. -/
theorem MarksKept.mark (inv : MarksKept s) (here : s.vNodes = done ++ pnode :: rest)
    (of : request.stage = some s.stage) :
    MarksKept { s.mark pnode request with
      vNodes := done ++ pnode.fulfilledRequest request :: rest } := by
  refine inv.keep rfl ?_ ?_ ?_
  · exact fun x member => mem_cons_of_mem _ member
  · intro x member
    rcases mem_cons.mp member with rfl | old
    · exact Or.inr of
    · exact Or.inl old
  · exact carriesMarks_fulfilled here request _ mem_cons_self rfl

section

variable (inv : SyncInvariant s)
include inv

section

variable (here : s.vNodes = done ++ pnode :: rest)
include here

/-- A peer is marked, and asked unless the threshold is reached. -/
theorem SyncInvariant.marked (of : request.stage = some s.stage) {s' : SyncNode}
    (stage : s'.stage = s.stage) (attempt : s.attempt ≤ s'.attempt)
    (marked : s'.marked = (pnode.id, request) :: s.marked) (asked : ∀ x ∈ s.asked, x ∈ s'.asked)
    (sent : s'.attempt < MASTERNODE_SYNC_THRESHOLD → (pnode.id, request) ∈ s'.asked) :
    SyncInvariant { s' with vNodes := done ++ pnode.fulfilledRequest request :: rest } := by
  refine inv.keep stage attempt ?_ ?_ asked ?_
  · change ∀ x ∈ s.marked, x ∈ s'.marked
    rw [marked]
    exact fun x member => mem_cons_of_mem _ member
  · intro x member
    rw [marked] at member
    rcases mem_cons.mp member with rfl | old
    · exact Or.inr ⟨of, sent⟩
    · exact Or.inl old
  · exact carriesMarks_fulfilled here request _ (by rw [marked]; exact mem_cons_self) rfl

/-- A peer is passed by. -/
theorem TurnKeeps.skip (passes : s.CanAsk network c (pnode :: rest) → s.CanAsk network c rest) :
    TurnKeeps network c s done rest pnode (s, pnode, true) where
  kept := by
    refine inv.same rfl rfl rfl rfl here.symm
  goesOn := fun _ => passes

/-- The stage is left with the peer as it was. -/
theorem TurnKeeps.next (asks : s.stage.asks = true) :
    TurnKeeps network c s done rest pnode (s.getNextAsset c, pnode, false) where
  kept := by
    refine (inv.toMarksKept.getNextAsset (c := c) asks).same rfl rfl rfl rfl ?_
    rw [(getNextAsset_of_asks asks).2.1, here]
  goesOn := nofun

/-- A peer is marked; the loop goes on only at the threshold. -/
theorem TurnKeeps.marked (of : request.stage = some s.stage) {s' : SyncNode} {goesOn : Bool}
    (stage : s'.stage = s.stage) (attempt : s.attempt ≤ s'.attempt)
    (marked : s'.marked = (pnode.id, request) :: s.marked) (asked : ∀ x ∈ s.asked, x ∈ s'.asked)
    (sent : s'.attempt < MASTERNODE_SYNC_THRESHOLD → (pnode.id, request) ∈ s'.asked ∧ goesOn = false)
    :
    TurnKeeps network c s done rest pnode (s', pnode.fulfilledRequest request, goesOn) where
  kept := inv.marked here of stage attempt marked asked fun below => (sent below).1
  goesOn := by
    intro on _ below
    have on' : goesOn = true := on
    rw [(sent below).2] at on'
    cases on'

theorem visitOnce_keeps (of : request.stage = some s.stage) (passes : s.CanAsk network c rest) :
    TurnKeeps network c s done rest pnode (s.visitOnce request c pnode) := by
  unfold visitOnce
  by_cases has : pnode.hasFulfilledRequest request = true
  · rw [if_pos has]
    exact .skip inv here fun _ => passes
  rw [if_neg has]
  by_cases enough : s.attempt ≥ MASTERNODE_SYNC_THRESHOLD
  · rw [if_pos enough]
    exact .next inv here (asks_of_stage of)
  · rw [if_neg enough]
    exact .marked inv here of rfl (Nat.le_succ _) rfl
      (fun x member => mem_cons_of_mem _ member) fun _ => ⟨mem_cons_self, rfl⟩

end

end

/-- What a request of the manager leaves of the run. -/
structure Requested (pnode : SyncPeer) (request : PeerRequest) (s : SyncNode)
    (result : SyncNode × Bool) : Prop where
  stage : result.1.stage = s.stage
  attempt : result.1.attempt = s.attempt
  marked : result.1.marked = s.marked
  kept : ∀ x ∈ s.asked, x ∈ result.1.asked
  sent : result.2 = true → (pnode.id, request) ∈ result.1.asked

theorem dsegUpdate_requested (network : Network) (c : SyncCall) (pnode : SyncPeer)
    (s : SyncNode) : Requested pnode .mnsync s (s.dsegUpdate network c pnode) := by
  unfold dsegUpdate
  split
  · exact ⟨rfl, rfl, rfl, fun _ => id, nofun⟩
  · exact ⟨rfl, rfl, rfl, fun _ member => mem_cons_of_mem _ member,
      fun _ => mem_cons_self⟩

theorem winnersUpdate_requested (network : Network) (c : SyncCall) (pnode : SyncPeer)
    (s : SyncNode) : Requested pnode .mnwsync s (s.winnersUpdate network c pnode) := by
  unfold winnersUpdate
  split
  · exact ⟨rfl, rfl, rfl, fun _ => id, nofun⟩
  · exact ⟨rfl, rfl, rfl, fun _ member => mem_cons_of_mem _ member,
      fun _ => mem_cons_self⟩

theorem visitUpdate_keeps (inv : SyncInvariant s) (here : s.vNodes = done ++ pnode :: rest)
    (of : request.stage = some s.stage) {last : Int} {isDone isReady : Bool}
    {update : SyncNode → SyncNode × Bool} (requested : ∀ s, Requested pnode request s (update s))
    (passes : pnode.hasFulfilledRequest request = true →
      s.CanAsk network c (pnode :: rest) → s.CanAsk network c rest)
    (can : s.attempt < MASTERNODE_SYNC_THRESHOLD → s.isTimedOut c last = false →
      pnode.hasFulfilledRequest request = false →
      isReady = true ∧ (update (s.mark pnode request)).2 = true) :
    TurnKeeps network c s done rest pnode
      (s.visitUpdate request last isDone isReady update c pnode) := by
  have asks : s.stage.asks = true := asks_of_stage of
  unfold visitUpdate
  by_cases finished : isDone = true
  · rw [if_pos finished]
    exact .next inv here asks
  rw [if_neg finished]
  by_cases has : pnode.hasFulfilledRequest request = true
  · rw [if_pos has]
    exact .skip inv here (passes has)
  rw [if_neg has]
  rw [Bool.not_eq_true] at has
  by_cases late : (s.mark pnode request).isTimedOut c last = true
  · rw [if_pos late]
    refine ⟨?_, nofun⟩
    split
    · exact .of_quiet rfl
    · obtain ⟨marked, -, later⟩ :=
        getNextAsset_of_asks (s := s.mark pnode request) (c := c) asks
      exact (inv.toMarksKept.mark here of).leave (fun _ => ⟨asks, later⟩) marked rfl
  rw [if_neg late]
  rw [Bool.not_eq_true] at late
  -- whoever is marked without being asked is marked at the threshold
  have reached : isReady = false ∨ (update (s.mark pnode request)).2 = false →
      ¬ s.attempt < MASTERNODE_SYNC_THRESHOLD := by
    intro refused below
    obtain ⟨ready, sent⟩ := can below late has
    rcases refused with unready | unsent
    · rw [ready] at unready
      cases unready
    · rw [sent] at unsent
      cases unsent
  by_cases many : (s.mark pnode request).attempt ≥ MASTERNODE_SYNC_THRESHOLD * 3
  · rw [if_pos many]
    refine .marked inv here of rfl (le_refl _) rfl (fun _ => id) fun below => ?_
    omega
  rw [if_neg many]
  by_cases unready : (!isReady) = true
  · rw [if_pos unready]
    refine .marked inv here of rfl (le_refl _) rfl (fun _ => id) fun below => ?_
    exact absurd below (reached (Or.inl ((Bool.not_eq_true' isReady).mp unready)))
  rw [if_neg unready]
  have result := requested (s.mark pnode request)
  rcases answer : update (s.mark pnode request) with ⟨s', _ | _⟩
  · rw [answer] at result reached
    have attempt : s'.attempt = s.attempt := result.attempt
    refine .marked inv here of result.stage (le_of_eq attempt.symm) result.marked
      result.kept ?_
    intro below
    exact absurd (attempt ▸ below) (reached (Or.inr rfl))
  rw [answer] at result
  have attempt : s'.attempt = s.attempt := result.attempt
  have stage : s'.countAttempt.stage = s.stage := result.stage
  have counted : s.attempt ≤ s'.countAttempt.attempt := by
    change s.attempt ≤ s'.attempt + 1
    omega
  exact .marked inv here of stage counted result.marked result.kept
    fun _ => ⟨result.sent rfl, rfl⟩

theorem canAsk_of_stage (notList : s.stage ≠ .list) (notMnw : s.stage ≠ .mnw)
    (vNodes : List SyncPeer) : s.CanAsk network c vNodes :=
  fun _ => ⟨fun list => absurd list notList, fun mnw => absurd mnw notMnw⟩

theorem nextPeer_skip
    (skipped : pnode.nVersion < c.minProto ∨ pnode.hasFulfilledRequest request = true) :
    SyncNode.nextPeer c request (pnode :: rest) = SyncNode.nextPeer c request rest := by
  refine List.find?_cons_of_neg ?_
  rw [Bool.and_eq_true, decide_eq_true_eq]
  rintro ⟨version, unmarked⟩
  rcases skipped with old | has
  · omega
  · rw [has] at unmarked
    cases unmarked

theorem nextPeer_here (version : pnode.nVersion ≥ c.minProto)
    (unmarked : pnode.hasFulfilledRequest request = false) :
    SyncNode.nextPeer c request (pnode :: rest) = some pnode := by
  refine List.find?_cons_of_pos ?_
  rw [Bool.and_eq_true, decide_eq_true_eq, unmarked]
  exact ⟨version, rfl⟩

/-- A peer that is passed by leaves the next one as it was. -/
theorem canAsk_skip
    (list : s.stage = .list → pnode.nVersion < c.minProto ∨
      pnode.hasFulfilledRequest .mnsync = true)
    (mnw : s.stage = .mnw → pnode.nVersion < c.minProto ∨ pnode.hasFulfilledRequest .mnwsync = true)
    (can : s.CanAsk network c (pnode :: rest)) : s.CanAsk network c rest := by
  intro below
  obtain ⟨first, second⟩ := can below
  refine ⟨fun stage => ?_, fun stage => ?_⟩
  · rw [← nextPeer_skip (list stage)]
    exact first stage
  · rw [← nextPeer_skip (mnw stage)]
    exact second stage

theorem visitList_keeps (inv : SyncInvariant s) (here : s.vNodes = done ++ pnode :: rest)
    (stage : s.stage = .list) (version : pnode.nVersion ≥ c.minProto)
    (can : s.CanAsk network c (pnode :: rest)) :
    TurnKeeps network c s done rest pnode (s.visitList network c pnode) := by
  refine visitUpdate_keeps inv here (stage ▸ rfl) (dsegUpdate_requested network c pnode) ?_ ?_
  · intro has
    exact canAsk_skip (fun _ => Or.inr has) fun mnw => by rw [stage] at mnw; cases mnw
  intro below late unmarked
  have free := (can below).1 stage late pnode (nextPeer_here version unmarked)
  have free' : SyncNode.heldBack network c.time
    (s.mark pnode .mnsync).mWeAskedForMasternodeList pnode.addr = false := free
  refine ⟨rfl, ?_⟩
  rw [dsegUpdate, free']
  rfl

theorem visitWinners_keeps (inv : SyncInvariant s) (here : s.vNodes = done ++ pnode :: rest)
    (stage : s.stage = .mnw) (version : pnode.nVersion ≥ c.minProto)
    (can : s.CanAsk network c (pnode :: rest)) :
    TurnKeeps network c s done rest pnode (s.visitWinners network c pnode) := by
  refine visitUpdate_keeps inv here (stage ▸ rfl) (winnersUpdate_requested network c pnode) ?_ ?_
  · intro has
    refine canAsk_skip (fun list => ?_) fun _ => Or.inr has
    rw [stage] at list
    cases list
  intro below late unmarked
  obtain ⟨tip, free⟩ := (can below).2 stage late pnode (nextPeer_here version unmarked)
  have free' : SyncNode.heldBack network c.time
    (s.mark pnode .mnwsync).mWeAskedForWinnerMasternodeList pnode.addr = false := free
  refine ⟨tip, ?_⟩
  rw [winnersUpdate, free']
  rfl

theorem visit_keeps (open' : network ≠ .regtest) (inv : SyncInvariant s)
    (here : s.vNodes = done ++ pnode :: rest) (can : s.CanAsk network c (pnode :: rest)) :
    TurnKeeps network c s done rest pnode (s.visit network c pnode) := by
  unfold visit
  rw [if_neg open']
  cases stage : s.stage with
  | initial | failed | finished =>
    refine .skip inv here fun _ => canAsk_of_stage ?_ ?_ rest
    · rw [stage]
      exact nofun
    · rw [stage]
      exact nofun
  | sporks | gm =>
    refine visitOnce_keeps inv here (stage ▸ rfl) (canAsk_of_stage ?_ ?_ rest)
    · rw [stage]
      exact nofun
    · rw [stage]
      exact nofun
  | list =>
    by_cases version : pnode.nVersion ≥ c.minProto
    · rw [if_pos version]
      exact visitList_keeps inv here stage version can
    rw [if_neg version]
    refine .skip inv here (canAsk_skip (fun _ => Or.inl (by omega)) fun mnw => ?_)
    rw [stage] at mnw
    cases mnw
  | mnw =>
    change TurnKeeps network c s done rest pnode
      (if pnode.nVersion ≥ c.minProto then s.visitWinners network c pnode else (s, pnode, true))
    by_cases version : pnode.nVersion ≥ c.minProto
    · rw [if_pos version]
      exact visitWinners_keeps inv here stage version can
    rw [if_neg version]
    refine .skip inv here (canAsk_skip (fun list => ?_) fun _ => Or.inl (by omega))
    rw [stage] at list
    cases list

/-- The loop keeps the invariant. The peers behind `done` are still to be visited. -/
theorem visitAll_keeps (open' : network ≠ .regtest) (inv : SyncInvariant s)
    (here : s.vNodes = done ++ rest) (can : s.CanAsk network c rest) :
    SyncInvariant (s.visitAll network c done rest) := by
  induction rest generalizing done s with
  | nil => exact inv
  | cons pnode rest ih =>
    obtain ⟨kept, goesOn⟩ := visit_keeps open' inv here can
    rw [visitAll]
    generalize s.visit network c pnode = turn at kept goesOn
    obtain ⟨s', pnode', on⟩ := turn
    cases on with
    | false => exact kept
    | true =>
      refine ih kept ?_ (goesOn rfl can)
      rw [append_assoc]
      rfl

end Loop

/-! ## Process -/

section Process

variable {network : Network} {c : SyncCall} {s : SyncNode}

theorem visitRegtest_keeps (inv : SyncInvariant s) (pnode : SyncPeer) :
    SyncInvariant (s.visitRegtest c pnode) := by
  have asked : ∀ {s' : SyncNode}, s'.stage = s.stage → s'.attempt = s.attempt →
      s'.marked = s.marked → s'.vNodes = s.vNodes → (∀ x ∈ s.asked, x ∈ s'.asked) →
      SyncInvariant s'.countAttempt := by
    intro s' stage attempt marked vNodes kept
    refine inv.keep stage ?_ ?_ ?_ kept (.of_eq vNodes)
    · change s.attempt ≤ s'.attempt + 1
      omega
    · change ∀ x ∈ s.marked, x ∈ s'.marked
      rw [marked]
      exact fun _ => id
    · change ∀ x ∈ s'.marked, _
      rw [marked]
      exact fun _ => Or.inl
  unfold visitRegtest
  split
  · exact asked rfl rfl rfl rfl fun _ member => mem_cons_of_mem _ member
  split
  · unfold dsegUpdate
    split
    · exact asked rfl rfl rfl rfl fun _ => id
    · exact asked rfl rfl rfl rfl fun _ member => mem_cons_of_mem _ member
  · split
    · exact asked rfl rfl rfl rfl fun _ member => mem_cons_of_mem _ member
    · exact .of_quiet rfl

theorem askPeers_keeps (inv : SyncInvariant s)
    (can : network ≠ .regtest → c.lockNodes = true → s.CanAsk network c s.vNodes) :
    SyncInvariant (s.askPeers network c) := by
  unfold askPeers
  by_cases locked : c.lockNodes = true
  · rw [locked, Bool.not_true, if_neg Bool.false_ne_true]
    by_cases regtest : network = .regtest
    · cases peers : s.vNodes with
      | nil => exact inv
      | cons pnode rest =>
        rw [visitAll, visit, if_pos regtest]
        refine (visitRegtest_keeps (c := c) inv pnode).same rfl rfl rfl rfl ?_
        have same : (s.visitRegtest c pnode).vNodes = s.vNodes := by
          unfold visitRegtest dsegUpdate
          split_ifs <;> rfl
        rw [same, peers]
        rfl
    · exact visitAll_keeps regtest inv rfl (can regtest locked)
  · rw [Bool.not_eq_true] at locked
    rw [locked]
    exact inv

/-- Does `IsBlockchainSynced` find a recent tip? -/
def SyncCall.tipIsRecent (c : SyncCall) : Bool :=
  !c.importing && c.lockMain && c.tipTime.any fun nTime => !decide (nTime + 60 * 60 < c.time)

/-- `IsBlockchainSynced` changes its static variables only, after a reset where it has slept. -/
theorem isBlockchainSynced_eq :
    s.isBlockchainSynced c =
      let s' := if s.hasSlept c then { s.reset c.time with fBlockchainSynced := false } else s
      let synced := s'.fBlockchainSynced || c.tipIsRecent
      ({ s' with lastProcess := some c.time, fBlockchainSynced := synced }, synced) := by
  unfold SyncNode.isBlockchainSynced SyncCall.tipIsRecent
  generalize (if s.hasSlept c then { s.reset c.time with fBlockchainSynced := false } else s) = s'
  cases flag : s'.fBlockchainSynced with
  | true => simp only [flag, if_true, Bool.true_or]
  | false =>
    simp only [flag, Bool.false_eq_true, if_false, Bool.false_or]
    cases c.importing with
    | true => rfl
    | false =>
      cases c.lockMain with
      | false => rfl
      | true =>
        cases c.tipTime with
        | none => rfl
        | some nTime =>
          simp only [Option.any_some]
          generalize nTime + 60 * 60 = until_
          by_cases old : until_ < c.time
          · simp [old]
          · simp [old]

/-- Awake, it begins with what it has. -/
theorem isBlockchainSynced_awake (awake : s.hasSlept c = false) :
    ∃ flag, (s.isBlockchainSynced c).1 =
      { s with lastProcess := some c.time, fBlockchainSynced := flag } := by
  rw [isBlockchainSynced_eq, awake, if_neg Bool.false_ne_true]
  exact ⟨_, rfl⟩

/-- After a sleep it begins again. -/
theorem isBlockchainSynced_slept (slept : s.hasSlept c = true) :
    (s.isBlockchainSynced c).1.stage = .initial := by
  rw [isBlockchainSynced_eq, slept, if_pos rfl]
  rfl

theorem isBlockchainSynced_tick (tick : Nat) :
    (SyncNode.isBlockchainSynced c { s with tick }).2 = (s.isBlockchainSynced c).2 := by
  have slept : hasSlept c { s with tick } = s.hasSlept c := rfl
  rw [isBlockchainSynced_eq, isBlockchainSynced_eq, slept]
  cases s.hasSlept c <;> rfl

theorem isBlockchainSynced_keeps (inv : SyncInvariant s) :
    SyncInvariant (s.isBlockchainSynced c).1 := by
  cases slept : s.hasSlept c with
  | true =>
    refine .of_quiet ?_
    rw [isBlockchainSynced_slept slept]
    rfl
  | false =>
    obtain ⟨flag, same⟩ := isBlockchainSynced_awake slept
    rw [same]
    exact inv.same rfl rfl rfl rfl rfl

/-- The state with which `Process` goes on is the one it had or one that was reset. -/
theorem wake_cases {s' : SyncNode} (woken : s.wake c = some s') :
    s' = s ∨ s' = s.reset c.time := by
  unfold wake at woken
  split at woken
  · split at woken
    · exact Or.inr (Option.some.inj woken).symm
    · cases woken
  · split at woken
    · exact Or.inr (Option.some.inj woken).symm
    · cases woken
  · exact Or.inl (Option.some.inj woken).symm
  · exact Or.inl (Option.some.inj woken).symm
  · exact Or.inl (Option.some.inj woken).symm
  · exact Or.inl (Option.some.inj woken).symm
  · exact Or.inl (Option.some.inj woken).symm

/-- Where every mark can be cleared, none is left at the first stage. -/
theorem begin_clears (clear : s.CanClear c) (initial : s.stage = .initial) :
    SyncInvariant (s.begin c) := by
  unfold begin getNextAsset
  rw [if_pos initial, initial]
  refine ⟨⟨fun _ pnode member request inside named => ?_, fun _ _ _ _ => nofun⟩,
    fun _ _ _ _ => nofun⟩
  cases locked : c.lockClear with
  | true =>
    simp only [enter, SyncNode.clearFulfilledRequest, locked, Bool.not_true,
      Bool.false_eq_true, if_false, mem_map] at member
    obtain ⟨old, was, rfl⟩ := member
    obtain ⟨inside', left⟩ := SyncPeer.mem_cleared inside
    exact absurd (left named) (clear old was request inside' named).2
  | false =>
    simp only [enter, SyncNode.clearFulfilledRequest, locked, Bool.not_false,
      if_true] at member
    have free := (clear pnode member request inside named).1
    rw [locked] at free
    cases free

theorem proceed_keeps_awake (awake : network ≠ .regtest → s.hasSlept c = false)
    (inv : SyncInvariant s)
    (can : network ≠ .regtest → (s.isBlockchainSynced c).2 = true → c.lockNodes = true →
      s.CanAsk network c s.vNodes) :
    SyncInvariant (s.proceed network c) := by
  unfold proceed
  by_cases regtest : network = .regtest
  · rw [if_pos regtest]
    exact askPeers_keeps inv fun other => absurd regtest other
  rw [if_neg regtest]
  obtain ⟨flag, same⟩ := isBlockchainSynced_awake (awake regtest)
  have can := can regtest
  generalize s.isBlockchainSynced c = result at same can
  obtain ⟨s', synced⟩ := result
  obtain rfl : s' = { s with lastProcess := some c.time, fBlockchainSynced := flag } := same
  simp only
  have inv' : SyncInvariant { s with lastProcess := some c.time, fBlockchainSynced := flag } :=
    inv.same rfl rfl rfl rfl rfl
  split
  · exact inv'.same rfl rfl rfl rfl rfl
  rename_i goesOn
  refine askPeers_keeps inv' fun _ locked => ?_
  cases synced with
  | true => exact can rfl locked
  | false =>
    -- not synced, the loop is reached in the first stages only
    refine canAsk_of_stage ?_ ?_ _
    · intro list
      rw [list] at goesOn
      exact absurd goesOn (by decide)
    · intro mnw
      rw [mnw] at goesOn
      exact absurd goesOn (by decide)

theorem proceed_keeps_slept (open' : network ≠ .regtest) (slept : s.hasSlept c = true) :
    SyncInvariant (s.proceed network c) := by
  unfold proceed
  rw [if_neg open']
  have stage := isBlockchainSynced_slept slept
  generalize s.isBlockchainSynced c = result at stage
  obtain ⟨s', synced⟩ := result
  have initial : s'.stage = .initial := stage
  have inv : SyncInvariant s' := .of_quiet (by rw [initial]; rfl)
  simp only
  split
  · exact inv.same rfl rfl rfl rfl rfl
  refine askPeers_keeps inv fun _ _ => canAsk_of_stage ?_ ?_ _
  · rw [initial]
    exact nofun
  · rw [initial]
    exact nofun

theorem wake_tick (tick : Nat) :
    wake c { s with tick } = (s.wake c).map fun s => { s with tick } := by
  unfold wake
  cases s.stage with
  | finished =>
    simp only
    split <;> rfl
  | failed =>
    simp only
    split <;> rfl
  | initial | sporks | list | mnw | gm => rfl

theorem begin_lastProcess : (s.begin c).lastProcess = s.lastProcess := by
  unfold begin getNextAsset SyncNode.clearFulfilledRequest
  split_ifs
  · cases s.stage <;> rfl
  · cases s.stage <;> rfl
  · rfl

theorem begin_stage (initial : s.stage = .initial) : (s.begin c).stage = .sporks := by
  unfold begin getNextAsset
  rw [if_pos initial, initial]
  rfl

/-- The invariant behind `Process`: it falls back to the initial stage, begins a run with what it
can clear, or goes on with a run. -/
theorem process_keeps (inv : SyncInvariant s) (clears : s.restarts network c = true → s.CanClear c)
    (can : s.looks network c = true → s.CanAsk network c s.vNodes) :
    SyncInvariant (s.process network c) := by
  unfold SyncNode.process
  have inv' : SyncInvariant { s with tick := s.tick + 1 } := inv.same rfl rfl rfl rfl rfl
  cases due : s.tick % MASTERNODE_SYNC_TIMEOUT == 0 with
  | false => exact inv'
  | true =>
    simp only [Bool.not_true, Bool.false_eq_true, if_false]
    rw [wake_tick]
    cases woken : s.wake c with
    | none => exact inv'
    | some s' =>
      rw [Option.map_some]
      simp only
      have lastProcess : s'.lastProcess = s.lastProcess := by
        rcases wake_cases woken with rfl | rfl <;> rfl
      have vNodes : s'.vNodes = s.vNodes := by
        rcases wake_cases woken with rfl | rfl <;> rfl
      have sleeps : hasSlept c (begin c { s' with tick := s.tick + 1 }) =
          s.hasSlept c := by
        unfold hasSlept
        rw [begin_lastProcess, lastProcess]
      by_cases back : network ≠ .regtest ∧ s.hasSlept c = true
      · exact proceed_keeps_slept back.1 (sleeps.trans back.2)
      have awake : network ≠ .regtest → s.hasSlept c = false := by
        intro other
        rw [not_and, Bool.not_eq_true] at back
        exact back other
      by_cases initial : s'.stage = .initial
      · have restarts : s.restarts network c = true := by
          unfold SyncNode.restarts
          rw [due, woken]
          by_cases regtest : network = .regtest
          · simp [initial, regtest]
          · simp [initial, awake regtest]
        have clear : SyncNode.CanClear c { s' with tick := s.tick + 1 } := by
          have clear := clears restarts
          rw [SyncNode.CanClear, ← vNodes] at clear
          exact clear
        have first := begin_stage (c := c) (s := { s' with tick := s.tick + 1 }) initial
        refine proceed_keeps_awake (fun other => sleeps.trans (awake other))
          (begin_clears clear initial) fun _ _ _ => canAsk_of_stage ?_ ?_ _
        · rw [first]
          exact nofun
        · rw [first]
          exact nofun
      · obtain rfl : s' = s := by
          rcases wake_cases woken with same | reset
          · exact same
          · rw [reset] at initial
            exact absurd rfl initial
        have stays : begin c { s' with tick := s'.tick + 1 } =
            { s' with tick := s'.tick + 1 } := if_neg initial
        rw [stays]
        refine proceed_keeps_awake awake inv' fun other synced locked => ?_
        rw [isBlockchainSynced_tick] at synced
        refine can ?_
        unfold SyncNode.looks
        simp [due, other, awake other, synced, locked]

end Process

/-! ## Runs -/

theorem syncStep_keeps (network : Network) (s : SyncNode) (event : SyncEvent)
    (inv : SyncInvariant s) (asks : AsksAnew network s event) :
    SyncInvariant (syncStep network s event) := by
  cases event with
  | process c => exact process_keeps inv asks.1 asks.2
  | isBlockchainSynced c => exact isBlockchainSynced_keeps inv
  | reset time => exact .of_quiet rfl
  | addedMasternodeList time hash =>
    change SyncInvariant (s.addedMasternodeList time hash)
    unfold SyncNode.addedMasternodeList
    split
    · exact inv
    · exact inv.same rfl rfl rfl rfl rfl
  | addedMasternodeWinner time hash =>
    change SyncInvariant (s.addedMasternodeWinner time hash)
    unfold SyncNode.addedMasternodeWinner
    split
    · exact inv
    · exact inv.same rfl rfl rfl rfl rfl
  | syncStatusCount nItemID nCount =>
    change SyncInvariant (s.syncStatusCount nItemID nCount)
    unfold SyncNode.syncStatusCount
    split
    · exact inv
    · split
      · exact inv
      · split <;> exact inv.same rfl rfl rfl rfl rfl
  | connect addr nVersion =>
    refine inv.carry rfl rfl rfl rfl fun pnode member request inside _ => ?_
    rcases mem_append.mp member with old | new
    · exact Or.inr ⟨pnode, old, rfl, inside⟩
    · rw [mem_singleton.mp new] at inside
      cases inside
  | version id nVersion =>
    refine inv.carry rfl rfl rfl rfl fun pnode member request inside _ => ?_
    obtain ⟨old, was, rfl⟩ := mem_map.mp member
    refine Or.inr ⟨old, was, ?_⟩
    split at inside
    · rename_i same
      rw [if_pos same]
      exact ⟨rfl, inside⟩
    · rename_i other
      rw [if_neg other]
      exact ⟨rfl, inside⟩
  | mnget id =>
    refine inv.carry rfl rfl rfl rfl fun pnode member request inside named => ?_
    obtain ⟨old, was, rfl⟩ := mem_map.mp member
    refine Or.inr ⟨old, was, ?_⟩
    split at inside
    · rename_i same
      rw [if_pos same, SyncPeer.id_fulfilledRequest]
      rcases SyncPeer.mem_fulfilledRequest inside with before | rfl
      · exact ⟨rfl, before⟩
      · cases named
    · rename_i other
      rw [if_neg other]
      exact ⟨rfl, inside⟩
  | disconnect id =>
    refine inv.carry rfl rfl rfl rfl fun pnode member request inside _ => ?_
    exact Or.inr ⟨pnode, (mem_filter.mp member).1, rfl, inside⟩
  | forget time => exact inv.same rfl rfl rfl rfl rfl

theorem init_syncInvariant : SyncInvariant {} := .of_quiet rfl

/-- In a run that begins each of its rounds with marks it can clear, and finds the next peer below
the threshold one that it can ask, no mark of an earlier round makes `Process` skip a peer. -/
theorem restarts_ask_anew (network : Network) (events : List SyncEvent)
    (asks : AllSteps (syncStep network) (AsksAnew network) {} events) :
    ∀ part, part <+: events → AskedAnew (run (syncStep network) {} part) := by
  intro part initial
  have inv : SyncInvariant (run (syncStep network) {} part) :=
    (asks.restrict initial).invariant (syncStep_keeps network) init_syncInvariant
  exact inv.askedAnew

/-! ## Two runs -/

def sampleSyncCall (time : Int) : SyncCall where
  time
  paymentEnforcement := false
  countEnabled := 0
  minProto := 0
  importing := false
  lockMain := true
  tipTime := some time
  lockClear := true
  lockNodes := true

/-- As many calls as make `n` rounds of `Process`. -/
def syncRounds (time : Int) (n : Nat) : List SyncEvent :=
  List.replicate (MASTERNODE_SYNC_TIMEOUT * n) (.process (sampleSyncCall time))

def sampleAddr : CNetAddr := ⟨(List.replicate 16 5).toArray, by decide⟩

def resetEarly : List SyncEvent :=
  .connect sampleAddr 70000 :: syncRounds 10 1 ++ .reset 10 :: syncRounds 20 1

instance (c : SyncCall) (s : SyncNode) : Decidable (s.CanClear c) :=
  inferInstanceAs (Decidable (∀ pnode ∈ s.vNodes, _))

instance (network : Network) (c : SyncCall) (s : SyncNode) (vNodes : List SyncPeer) :
    Decidable (s.CanAsk network c vNodes) :=
  inferInstanceAs (Decidable (_ → _ ∧ _))

instance (network : Network) (s : SyncNode) :
    (event : SyncEvent) → Decidable (AsksAnew network s event)
  | .process _ => inferInstanceAs (Decidable (_ ∧ _))
  | .isBlockchainSynced _ | .reset _ | .addedMasternodeList _ _ | .addedMasternodeWinner _ _
  | .syncStatusCount _ _ | .connect _ _ | .version _ _ | .mnget _ | .disconnect _ | .forget _ =>
    isTrue trivial

theorem resetEarly_asks : AllSteps (syncStep .main) (AsksAnew .main) {} resetEarly := by
  decide +kernel

theorem resetEarly_asks_anew :
    AllSteps (syncStep .main) (AsksAnew .main) {} resetEarly ∧
      ∀ part, part <+: resetEarly → AskedAnew (run (syncStep .main) {} part) :=
  ⟨resetEarly_asks, restarts_ask_anew .main resetEarly resetEarly_asks⟩

/-- Two peers are asked in every stage, and after a reset again up to the winners. -/
def askedOnce : List SyncEvent :=
  List.replicate 3 (.connect sampleAddr 70000) ++ syncRounds 10 5 ++ [.addedMasternodeList 10 7] ++
    syncRounds 20 3 ++ [.addedMasternodeWinner 20 7] ++ syncRounds 30 3 ++ [.reset 30] ++
    syncRounds 40 3 ++ [.disconnect 2] ++ syncRounds 40 2 ++ [.addedMasternodeList 40 7] ++
    syncRounds 50 3 ++ [.addedMasternodeWinner 50 7] ++ syncRounds 60 2

/-- The marks of the global-message stage are those of the run before the reset: no peer is asked,
and the stage does not end. -/
theorem restart_leaves_getgm :
    ¬ ∀ (network : Network) (events : List SyncEvent), ∀ part, part <+: events →
      AskedAnew (run (syncStep network) {} part) := by
  intro claim
  have again := (claim .testnet askedOnce askedOnce prefix_rfl).notStuck .getgm
  exact absurd (again (by decide +kernel) (by decide +kernel) (by decide +kernel)
    (by decide +kernel)) (by decide +kernel)

end Esbcoin
