import Esbcoin.Lib.KeyedList
import Esbcoin.Net.Address
import Esbcoin.Net.Orphans

/-!
# Blocks in flight

Which block was asked of which peer: `mapBlocksInFlight`, the list `vBlocksInFlight` of each peer,
its length `nBlocksInFlight`, and the global `nQueuedValidatedHeaders` (`src/main.cpp:340-402`).
The entries of a list have addresses, as the map holds iterators into the lists.
-/

namespace Esbcoin

open AssocMap KeyedList List StepRun

/-- `QueuedBlock` (`main.cpp:162-168`); `pindex` is the hash of the index entry pointed to. -/
structure QueuedBlock where
  hash : UInt256
  pindex : Option UInt256
  nTime : Int
  nValidatedQueuedBefore : Int
  fValidatedHeaders : Bool
deriving DecidableEq, Repr

/-- The fields of `CNodeState` (`main.cpp:265-311`) that the functions here read or write. -/
structure CNodeState where
  address : CService
  fCurrentlyConnected : Bool := false
  nMisbehavior : Int := 0
  fSyncStarted : Bool := false
  nStallingSince : Int := 0
  /-- The entries with their addresses. -/
  vBlocksInFlight : List (Nat × QueuedBlock) := []
  nBlocksInFlight : Int := 0
  fPreferredDownload : Bool := false
deriving DecidableEq, Repr

/-- The peers and what is asked of them. -/
structure InFlightState where
  mapNodeState : AssocMap NodeId CNodeState
  /-- `mapBlocksInFlight`: the peer, and the address of the entry in its list. -/
  mapBlocksInFlight : AssocMap UInt256 (NodeId × Nat)
  nQueuedValidatedHeaders : Int
  nSyncStarted : Int
  nPreferredDownload : Int
  orphans : OrphanState
  /-- The calls of `AddressCurrentlyConnected`. -/
  connectedAddresses : List CService
  /-- The address of the next list entry. -/
  nextEntry : Nat

namespace InFlightState

/-- A node that has just started. -/
def init : InFlightState := ⟨∅, ∅, 0, 0, 0, .init, [], 0⟩

end InFlightState

/-- `InitializeNode` (`main.cpp:346-352`): the insertion keeps a state that is there. -/
def initializeNode (s : InFlightState) (nodeid : NodeId) (addr : CService) : InFlightState :=
  let state := (s.mapNodeState.lookup nodeid).getD { address := addr }
  { s with mapNodeState := s.mapNodeState.insert nodeid { state with address := addr } }

/-- `FinalizeNode` of a peer whose state is there (`main.cpp:359-371`). -/
def forgetNode (s : InFlightState) (nodeid : NodeId) (state : CNodeState) : InFlightState :=
  { s with
    nSyncStarted := if state.fSyncStarted then s.nSyncStarted - 1 else s.nSyncStarted
    connectedAddresses :=
      if state.nMisbehavior == (0 : Int) && state.fCurrentlyConnected then
        s.connectedAddresses ++ [state.address]
      else s.connectedAddresses
    mapBlocksInFlight :=
      s.mapBlocksInFlight.eraseAll (state.vBlocksInFlight.map fun entry => entry.2.hash)
    orphans := eraseOrphansFor s.orphans nodeid
    nPreferredDownload := s.nPreferredDownload - state.fPreferredDownload.toNat
    mapNodeState := s.mapNodeState.erase nodeid }

/-- `FinalizeNode` (`main.cpp:354-372`); `none` where the state of the peer is a null pointer. -/
def finalizeNode (s : InFlightState) (nodeid : NodeId) : Option InFlightState :=
  (s.mapNodeState.lookup nodeid).map (forgetNode s nodeid)

/-- `MarkBlockAsReceived` of a hash in flight (`main.cpp:379-384`). -/
def receiveBlock (s : InFlightState) (hash : UInt256) (nodeid : NodeId) (state : CNodeState)
    (entry : Nat × QueuedBlock) : InFlightState :=
  { s with
    nQueuedValidatedHeaders := s.nQueuedValidatedHeaders - entry.2.fValidatedHeaders.toNat
    mapNodeState := s.mapNodeState.insert nodeid
      { state with
        vBlocksInFlight := remove Prod.fst entry.1 state.vBlocksInFlight
        nBlocksInFlight := state.nBlocksInFlight - 1
        nStallingSince := 0 }
    mapBlocksInFlight := s.mapBlocksInFlight.erase hash }

/-- `MarkBlockAsReceived` (`main.cpp:375-386`); `none` where a null pointer or an iterator that is
not in the list is followed. -/
def markBlockAsReceived (s : InFlightState) (hash : UInt256) : Option InFlightState :=
  match s.mapBlocksInFlight.lookup hash with
  | none => some s
  | some (nodeid, it) =>
    (s.mapNodeState.lookup nodeid).bind fun state =>
      (find Prod.fst it state.vBlocksInFlight).map (receiveBlock s hash nodeid state)

/-- The part of `MarkBlockAsInFlight` behind `MarkBlockAsReceived` (`main.cpp:397-401`). -/
def queueBlock (s : InFlightState) (nodeid : NodeId) (state : CNodeState) (hash : UInt256)
    (pindex : Option UInt256) (getTimeMicros : Int) : InFlightState :=
  let newentry : QueuedBlock :=
    ⟨hash, pindex, getTimeMicros, s.nQueuedValidatedHeaders, pindex.isSome⟩
  { s with
    nQueuedValidatedHeaders := s.nQueuedValidatedHeaders + newentry.fValidatedHeaders.toNat
    mapNodeState := s.mapNodeState.insert nodeid
      { state with
        vBlocksInFlight := state.vBlocksInFlight ++ [(s.nextEntry, newentry)]
        nBlocksInFlight := state.nBlocksInFlight + 1 }
    mapBlocksInFlight := s.mapBlocksInFlight.insert hash (nodeid, s.nextEntry)
    nextEntry := s.nextEntry + 1 }

/-- `MarkBlockAsInFlight` (`main.cpp:389-402`); `none` where the assertion fails or
`MarkBlockAsReceived` does not return. -/
def markBlockAsInFlight (s : InFlightState) (nodeid : NodeId) (hash : UInt256)
    (pindex : Option UInt256) (getTimeMicros : Int) : Option InFlightState :=
  (s.mapNodeState.lookup nodeid).bind fun _ =>
    (markBlockAsReceived s hash).bind fun s =>
      (s.mapNodeState.lookup nodeid).map fun state =>
        queueBlock s nodeid state hash pindex getTimeMicros

/-- What can happen to the blocks in flight. -/
inductive InFlightAction where
  | initializeNode (nodeid : NodeId) (addr : CService)
  | finalizeNode (nodeid : NodeId)
  | markBlockAsReceived (hash : UInt256)
  | markBlockAsInFlight (nodeid : NodeId) (hash : UInt256) (pindex : Option UInt256)
      (getTimeMicros : Int)

/-- One step; `none` is a crash. -/
def inFlightStep (s : InFlightState) : InFlightAction → Option InFlightState
  | .initializeNode nodeid addr => some (initializeNode s nodeid addr)
  | .finalizeNode nodeid => finalizeNode s nodeid
  | .markBlockAsReceived hash => markBlockAsReceived s hash
  | .markBlockAsInFlight nodeid hash pindex getTimeMicros =>
    markBlockAsInFlight s nodeid hash pindex getTimeMicros

/-! ## The map and the lists -/

/-- How many entries of a peer have a validated header. -/
def CNodeState.validated (state : CNodeState) : Nat :=
  state.vBlocksInFlight.countP fun entry => entry.2.fValidatedHeaders

namespace InFlightState

/-- How many entries in flight have a validated header. -/
def validated (s : InFlightState) : Nat := s.mapNodeState.total fun _ state => state.validated

/-- The list of a peer, empty for one that is not known. -/
def inFlight (s : InFlightState) (nodeid : NodeId) : List (Nat × QueuedBlock) :=
  match s.mapNodeState.lookup nodeid with
  | some state => state.vBlocksInFlight
  | none => []

/-- The counter of a peer, 0 for one that is not known. -/
def nInFlight (s : InFlightState) (nodeid : NodeId) : Int :=
  match s.mapNodeState.lookup nodeid with
  | some state => state.nBlocksInFlight
  | none => 0

end InFlightState

/-- The four structures agree. -/
structure InFlightConsistent (s : InFlightState) : Prop where
  /-- A hash in flight belongs to one peer and one entry of its list, and every entry of a list is
  in flight. -/
  owned : ∀ hash nodeid it, s.mapBlocksInFlight.lookup hash = some (nodeid, it) ↔
    ∃ entry ∈ s.inFlight nodeid, entry.1 = it ∧ entry.2.hash = hash
  /-- No list has a hash twice. -/
  once : ∀ nodeid, ((s.inFlight nodeid).map fun entry => entry.2.hash).Nodup
  counted : ∀ nodeid state, s.mapNodeState.lookup nodeid = some state →
    state.nBlocksInFlight = state.vBlocksInFlight.length
  queued : s.nQueuedValidatedHeaders = s.validated

namespace InFlightState

/-- What every step keeps: all but the global counter. -/
structure Owned (s : InFlightState) : Prop where
  listed : ∀ hash nodeid it, s.mapBlocksInFlight.lookup hash = some (nodeid, it) ↔
    ∃ entry ∈ s.inFlight nodeid, entry.1 = it ∧ entry.2.hash = hash
  distinct : ∀ nodeid, ((s.inFlight nodeid).map Prod.fst).Nodup
  fresh : ∀ nodeid, ∀ entry ∈ s.inFlight nodeid, entry.1 < s.nextEntry
  counted : ∀ nodeid, s.nInFlight nodeid = (s.inFlight nodeid).length

/-- How far the global counter is off. -/
def drift (s : InFlightState) : Int := s.nQueuedValidatedHeaders - s.validated

theorem owned_init : init.Owned where
  listed := by simp [init, inFlight]
  distinct := by simp [init, inFlight]
  fresh := by simp [init, inFlight]
  counted := by simp [init, inFlight, nInFlight]

theorem drift_init : init.drift = 0 := rfl

variable {s s' : InFlightState} {nodeid : NodeId} {hash : UInt256}

variable {state : CNodeState}

theorem inFlight_of_lookup (known : s.mapNodeState.lookup nodeid = some state) :
    s.inFlight nodeid = state.vBlocksInFlight := by
  simp [inFlight, known]

theorem nInFlight_of_lookup (known : s.mapNodeState.lookup nodeid = some state) :
    s.nInFlight nodeid = state.nBlocksInFlight := by
  simp [nInFlight, known]

theorem inFlight_insert (hmap : s'.mapNodeState = s.mapNodeState.insert nodeid state)
    (other : NodeId) :
    s'.inFlight other = if other = nodeid then state.vBlocksInFlight else s.inFlight other := by
  unfold inFlight
  rw [hmap, lookup_insert_eq]
  by_cases equal : other = nodeid <;> simp [equal]

theorem nInFlight_insert (hmap : s'.mapNodeState = s.mapNodeState.insert nodeid state)
    (other : NodeId) :
    s'.nInFlight other = if other = nodeid then state.nBlocksInFlight else s.nInFlight other := by
  unfold nInFlight
  rw [hmap, lookup_insert_eq]
  by_cases equal : other = nodeid <;> simp [equal]

theorem inFlight_erase (hmap : s'.mapNodeState = s.mapNodeState.erase nodeid) (other : NodeId) :
    s'.inFlight other = if other = nodeid then [] else s.inFlight other := by
  unfold inFlight
  rw [hmap, lookup_erase_eq]
  by_cases equal : other = nodeid <;> simp [equal]

theorem nInFlight_erase (hmap : s'.mapNodeState = s.mapNodeState.erase nodeid) (other : NodeId) :
    s'.nInFlight other = if other = nodeid then 0 else s.nInFlight other := by
  unfold nInFlight
  rw [hmap, lookup_erase_eq]
  by_cases equal : other = nodeid <;> simp [equal]

/-- The validated entries of a peer are in its list. -/
theorem validated_insert {state : CNodeState}
    (hmap : s'.mapNodeState = s.mapNodeState.insert nodeid state) :
    s'.validated + (s.inFlight nodeid).countP (fun entry => entry.2.fValidatedHeaders) =
      s.validated + state.validated := by
  have replaced := total_insert s.mapNodeState nodeid state
    fun _ state => state.validated
  unfold validated inFlight
  rw [hmap]
  cases known : s.mapNodeState.lookup nodeid with
  | none =>
    rw [replaced, erase_of_absent known]
    simp
  | some old =>
    have without := total_erase known fun _ state => state.validated
    unfold CNodeState.validated at *
    dsimp only at *
    omega

theorem validated_erase (hmap : s'.mapNodeState = s.mapNodeState.erase nodeid) :
    s'.validated + (s.inFlight nodeid).countP (fun entry => entry.2.fValidatedHeaders) =
      s.validated := by
  unfold validated inFlight
  rw [hmap]
  cases known : s.mapNodeState.lookup nodeid with
  | none => simp [erase_of_absent known]
  | some old => exact total_erase known fun _ state => state.validated

section

variable (h : s.Owned)
include h

theorem Owned.once (nodeid : NodeId) :
    ((s.inFlight nodeid).map fun entry => entry.2.hash).Nodup := by
  have distinct := h.distinct nodeid
  rw [nodup_map_iff_inj_on (List.Nodup.of_map _ distinct)]
  intro first hfirst second hsecond equal
  have here := (h.listed first.2.hash nodeid first.1).mpr ⟨first, hfirst, rfl, rfl⟩
  have there := (h.listed second.2.hash nodeid second.1).mpr ⟨second, hsecond, rfl, rfl⟩
  rw [equal, there] at here
  simp only [Option.some.injEq, Prod.mk.injEq, true_and] at here
  exact inj_on_of_nodup_map distinct hfirst hsecond here.symm

theorem consistent_iff : InFlightConsistent s ↔ s.drift = 0 := by
  constructor
  · intro consistent
    have queued := consistent.queued
    unfold drift
    omega
  intro none
  refine ⟨h.listed, h.once, ?_, ?_⟩
  · intro nodeid state known
    rw [← nInFlight_of_lookup known, h.counted, inFlight_of_lookup known]
  · unfold drift at none
    omega

/-- A step that leaves the lists, their counters and the map as they are. -/
theorem Owned.of_same (lists : ∀ nodeid, s'.inFlight nodeid = s.inFlight nodeid)
    (counts : ∀ nodeid, s'.nInFlight nodeid = s.nInFlight nodeid)
    (hmap : s'.mapBlocksInFlight = s.mapBlocksInFlight) (hnext : s'.nextEntry = s.nextEntry) :
    s'.Owned := by
  refine ⟨?_, ?_, ?_, ?_⟩
  · intro hash nodeid it
    rw [hmap, lists]
    exact h.listed hash nodeid it
  · intro nodeid
    rw [lists]
    exact h.distinct nodeid
  · intro nodeid
    rw [lists, hnext]
    exact h.fresh nodeid
  · intro nodeid
    rw [lists, counts]
    exact h.counted nodeid

/-- A new peer has nothing in flight, and one that is known keeps what it has. -/
theorem Owned.initializeNode (nodeid : NodeId) (addr : CService) :
    (initializeNode s nodeid addr).Owned ∧ (initializeNode s nodeid addr).drift = s.drift := by
  have kept : ((s.mapNodeState.lookup nodeid).getD { address := addr }).vBlocksInFlight
      = s.inFlight nodeid := by
    unfold inFlight
    cases s.mapNodeState.lookup nodeid <;> rfl
  have count : ((s.mapNodeState.lookup nodeid).getD { address := addr }).nBlocksInFlight
      = s.nInFlight nodeid := by
    unfold nInFlight
    cases s.mapNodeState.lookup nodeid <;> rfl
  constructor
  · refine h.of_same (fun other => ?_) (fun other => ?_) rfl rfl
    · rw [inFlight_insert rfl]
      split
      · rename_i equal
        rw [equal, ← kept]
      · rfl
    rw [nInFlight_insert rfl]
    split
    · rename_i equal
      rw [equal, ← count]
    · rfl
  · have total := @validated_insert s (Esbcoin.initializeNode s nodeid addr) nodeid _ rfl
    unfold CNodeState.validated at total
    rw [kept] at total
    unfold drift
    have queued : (Esbcoin.initializeNode s nodeid addr).nQueuedValidatedHeaders
      = s.nQueuedValidatedHeaders := rfl
    omega

/-- A peer that leaves takes its entries out of the map, but not out of the global counter. -/
theorem Owned.finalizeNode {nodeid : NodeId} (done : finalizeNode s nodeid = some s') :
    s'.Owned ∧
      s'.drift = s.drift + (s.inFlight nodeid).countP fun entry => entry.2.fValidatedHeaders := by
  unfold Esbcoin.finalizeNode at done
  rw [Option.map_eq_some_iff] at done
  obtain ⟨state, known, rfl⟩ := done
  have list := inFlight_of_lookup known
  constructor
  · refine ⟨?_, ?_, ?_, ?_⟩
    · intro hash other it
      rw [inFlight_erase rfl, forgetNode, lookup_eraseAll, ← list]
      by_cases mine : hash ∈ (s.inFlight nodeid).map fun entry => entry.2.hash
      · obtain ⟨entry, member, equal⟩ := mem_map.mp mine
        have owner := (h.listed hash nodeid entry.1).mpr ⟨entry, member, rfl, equal⟩
        rw [if_pos mine]
        refine ⟨fun none => (by cases none), ?_⟩
        rintro ⟨entry', member', rfl, equal'⟩
        split at member'
        · cases member'
        rename_i apart
        have both := (h.listed hash other entry'.1).mpr ⟨entry', member', rfl, equal'⟩
        rw [owner] at both
        exact absurd (congrArg Prod.fst (Option.some_inj.mp both)).symm apart
      · rw [if_neg mine]
        by_cases equal : other = nodeid
        · subst equal
          rw [if_pos rfl]
          refine ⟨fun found => ?_, fun ⟨_, member, _⟩ => (by cases member)⟩
          obtain ⟨entry, member, -, equal⟩ := (h.listed hash other it).mp found
          exact absurd (mem_map.mpr ⟨entry, member, equal⟩) mine
        · rw [if_neg equal]
          exact h.listed hash other it
    · intro other
      rw [inFlight_erase rfl]
      split
      · exact nodup_nil
      · exact h.distinct other
    · intro other
      rw [inFlight_erase rfl]
      split
      · intro entry member
        cases member
      · exact h.fresh other
    · intro other
      rw [inFlight_erase rfl, nInFlight_erase rfl]
      split
      · rfl
      · exact h.counted other
  · have total := @validated_erase s (forgetNode s nodeid state) nodeid rfl
    unfold drift
    have queued : (forgetNode s nodeid state).nQueuedValidatedHeaders
      = s.nQueuedValidatedHeaders := rfl
    omega

theorem Owned.receiveBlock {nodeid : NodeId} (known : s.mapNodeState.lookup nodeid = some state)
    {entry : Nat × QueuedBlock} (member : entry ∈ state.vBlocksInFlight) :
    (receiveBlock s entry.2.hash nodeid state entry).Owned := by
  have list := inFlight_of_lookup known
  have distinct := h.distinct nodeid
  have here := (h.listed entry.2.hash nodeid entry.1).mpr ⟨entry, list ▸ member, rfl, rfl⟩
  rw [list] at distinct
  refine ⟨?_, ?_, ?_, ?_⟩
  · intro hash other it
    rw [inFlight_insert rfl]
    show AList.lookup hash (s.mapBlocksInFlight.erase entry.2.hash) = _ ↔ _
    rw [lookup_erase_eq]
    by_cases received : hash = entry.2.hash
    · rw [if_pos received, received]
      refine ⟨fun none => (by cases none), ?_⟩
      rintro ⟨left, still, rfl, equal⟩
      split at still
      · rename_i mine
        obtain ⟨inList, apart⟩ := (mem_remove distinct left).mp still
        have there := (h.listed entry.2.hash nodeid left.1).mpr ⟨left, list ▸ inList, rfl, equal⟩
        rw [here] at there
        exact absurd (congrArg Prod.snd (Option.some_inj.mp there)).symm apart
      · rename_i apart
        have there := (h.listed entry.2.hash other left.1).mpr ⟨left, still, rfl, equal⟩
        rw [here] at there
        exact absurd (congrArg Prod.fst (Option.some_inj.mp there)).symm apart
    rw [if_neg received, h.listed]
    by_cases mine : other = nodeid
    · subst mine
      rw [if_pos rfl, list]
      refine exists_congr fun left => ?_
      rw [mem_remove distinct]
      constructor
      · rintro ⟨inList, rfl, rfl⟩
        refine ⟨⟨inList, fun equal => received ?_⟩, rfl, rfl⟩
        rw [inj_on_of_nodup_map distinct inList member equal]
      · rintro ⟨⟨inList, -⟩, rest⟩
        exact ⟨inList, rest⟩
    · rw [if_neg mine]
  · intro other
    rw [inFlight_insert rfl]
    split
    · exact nodup_remove distinct
    · exact h.distinct other
  · intro other
    rw [inFlight_insert rfl]
    split
    · intro left still
      refine h.fresh nodeid left (list ▸ ?_)
      exact ((mem_remove distinct left).mp still).1
    · exact h.fresh other
  · intro other
    rw [inFlight_insert rfl, nInFlight_insert rfl]
    split
    · have counted := h.counted nodeid
      rw [nInFlight_of_lookup known, list] at counted
      have shorter := (perm_of_find
        ((mem_iff_find distinct entry).mp member)).length_eq
      rw [length_cons] at shorter
      dsimp only
      omega
    · exact h.counted other

/-- A block that is received leaves the map and the list of its peer; nothing is followed that is
not there. -/
theorem Owned.markBlockAsReceived (hash : UInt256) :
    ∃ s', markBlockAsReceived s hash = some s' ∧ s'.Owned ∧ s'.drift = s.drift ∧
      s'.mapBlocksInFlight.lookup hash = none ∧
      ∀ nodeid, (s'.mapNodeState.lookup nodeid).isSome = (s.mapNodeState.lookup nodeid).isSome := by
  unfold Esbcoin.markBlockAsReceived
  cases inMap : s.mapBlocksInFlight.lookup hash with
  | none => exact ⟨s, rfl, h, rfl, inMap, fun _ => rfl⟩
  | some owner =>
    obtain ⟨nodeid, it⟩ := owner
    obtain ⟨entry, member, rfl, rfl⟩ := (h.listed hash nodeid it).mp inMap
    cases known : s.mapNodeState.lookup nodeid with
    | none => simp [inFlight, known] at member
    | some state =>
      have list := inFlight_of_lookup known
      have distinct := h.distinct nodeid
      rw [list] at member distinct
      have found := (mem_iff_find distinct entry).mp member
      refine ⟨Esbcoin.receiveBlock s entry.2.hash nodeid state entry, by simp [known, found],
        ?_, ?_, ?_, ?_⟩
      · exact h.receiveBlock known member
      · have total := @validated_insert s
          (Esbcoin.receiveBlock s entry.2.hash nodeid state entry) nodeid _ rfl
        have moved := (perm_of_find found).countP_eq
          fun entry => entry.2.fValidatedHeaders
        rw [countP_cons] at moved
        rw [list, CNodeState.validated] at total
        dsimp only at total
        have queued : (Esbcoin.receiveBlock s entry.2.hash nodeid state
            entry).nQueuedValidatedHeaders
          = s.nQueuedValidatedHeaders - entry.2.fValidatedHeaders.toNat := rfl
        unfold drift
        rw [queued]
        cases validated : entry.2.fValidatedHeaders with
        | false =>
          rw [validated, if_neg Bool.false_ne_true] at moved
          rw [Bool.toNat_false]
          omega
        | true =>
          rw [validated, if_pos rfl] at moved
          rw [Bool.toNat_true]
          omega
      · exact (lookup_erase_eq _ _ _).trans (if_pos rfl)
      · intro other
        show (AList.lookup other (s.mapNodeState.insert nodeid _)).isSome = _
        by_cases equal : other = nodeid
        · subst equal
          simp [known]
        · simp [equal]

/-- A hash that is not in flight is put at the end of a list. -/
theorem Owned.queueBlock {nodeid : NodeId} (known : s.mapNodeState.lookup nodeid = some state)
    (absent : s.mapBlocksInFlight.lookup hash = none) (pindex : Option UInt256)
    (getTimeMicros : Int) :
    (queueBlock s nodeid state hash pindex getTimeMicros).Owned ∧
      (queueBlock s nodeid state hash pindex getTimeMicros).drift = s.drift := by
  have list := inFlight_of_lookup known
  have fresh := h.fresh nodeid
  rw [list] at fresh
  constructor
  · refine ⟨?_, ?_, ?_, ?_⟩
    · intro hash' other it
      rw [inFlight_insert rfl, Esbcoin.queueBlock, lookup_insert_eq]
      by_cases new : hash' = hash
      · subst new
        rw [if_pos rfl]
        constructor
        · intro equal
          obtain ⟨rfl, rfl⟩ := Prod.mk.injEq .. ▸ Option.some_inj.mp equal
          rw [if_pos rfl]
          exact ⟨_, mem_append_right _ (mem_singleton_self _), rfl, rfl⟩
        rintro ⟨entry, member, rfl, equal⟩
        have notOld : ∀ peer, entry ∉ s.inFlight peer := by
          intro peer old
          have there := (h.listed hash' peer entry.1).mpr ⟨entry, old, rfl, equal⟩
          rw [absent] at there
          cases there
        split at member
        · rename_i mine
          rcases mem_append.mp member with old | last
          · exact absurd (list ▸ old) (notOld nodeid)
          · rw [mem_singleton.mp last, mine]
        · exact absurd member (notOld other)
      · rw [if_neg new, h.listed]
        by_cases mine : other = nodeid
        · subst mine
          rw [if_pos rfl, list]
          constructor
          · rintro ⟨entry, member, rest⟩
            exact ⟨entry, mem_append_left _ member, rest⟩
          rintro ⟨entry, member, rfl, equal⟩
          rcases mem_append.mp member with old | last
          · exact ⟨entry, old, rfl, equal⟩
          · rw [mem_singleton.mp last] at equal
            exact absurd equal.symm new
        · rw [if_neg mine]
    · intro other
      rw [inFlight_insert rfl]
      split
      · have distinct := h.distinct nodeid
        rw [list] at distinct
        rw [map_append, map_singleton, nodup_append]
        refine ⟨distinct, nodup_singleton _, ?_⟩
        intro it old it' last equal
        obtain ⟨entry, member, rfl⟩ := mem_map.mp old
        rw [mem_singleton.mp last] at equal
        exact absurd (fresh entry member) (by omega)
      · exact h.distinct other
    · intro other
      rw [inFlight_insert rfl, Esbcoin.queueBlock]
      split
      · intro entry member
        rcases mem_append.mp member with old | last
        · exact Nat.lt_succ_of_lt (fresh entry old)
        · rw [mem_singleton.mp last]
          exact Nat.lt_succ_self _
      · intro entry member
        exact Nat.lt_succ_of_lt (h.fresh other entry member)
    · intro other
      rw [inFlight_insert rfl, nInFlight_insert rfl]
      split
      · have counted := h.counted nodeid
        rw [nInFlight_of_lookup known, list] at counted
        rw [length_append, length_singleton]
        dsimp only
        omega
      · exact h.counted other
  · have total := @validated_insert s
      (Esbcoin.queueBlock s nodeid state hash pindex getTimeMicros) nodeid _ rfl
    rw [list, CNodeState.validated] at total
    rw [countP_append, countP_singleton] at total
    have queued : (Esbcoin.queueBlock s nodeid state hash pindex
        getTimeMicros).nQueuedValidatedHeaders
      = s.nQueuedValidatedHeaders + pindex.isSome.toNat := rfl
    unfold drift
    rw [queued]
    cases pindex with
    | none =>
      rw [Option.isSome_none, if_neg Bool.false_ne_true] at total
      rw [Option.isSome_none, Bool.toNat_false]
      omega
    | some pindex =>
      rw [Option.isSome_some, if_pos rfl] at total
      rw [Option.isSome_some, Bool.toNat_true]
      omega

theorem Owned.markBlockAsInFlight {nodeid : NodeId} {pindex : Option UInt256} {getTimeMicros : Int}
    (done : markBlockAsInFlight s nodeid hash pindex getTimeMicros = some s') :
    s'.Owned ∧ s'.drift = s.drift := by
  unfold Esbcoin.markBlockAsInFlight at done
  obtain ⟨received, hreceived, owned, drifts, absent, -⟩ := h.markBlockAsReceived hash
  rw [hreceived] at done
  obtain ⟨-, -, done⟩ := Option.bind_eq_some_iff.mp done
  rw [Option.bind_some, Option.map_eq_some_iff] at done
  obtain ⟨state, known, rfl⟩ := done
  obtain ⟨owned', drifts'⟩ := owned.queueBlock known absent pindex getTimeMicros
  exact ⟨owned', drifts'.trans drifts⟩

end

/-- The action takes a peer away that has a validated block in flight. -/
def Forgets (s : InFlightState) : InFlightAction → Prop
  | .finalizeNode nodeid => ∃ entry ∈ s.inFlight nodeid, entry.2.fValidatedHeaders = true
  | _ => False

/-- What one step does to the structures. -/
theorem Owned.step (h : s.Owned) {action : InFlightAction}
    (done : inFlightStep s action = some s') :
    s'.Owned ∧ (s'.drift = s.drift ↔ ¬ s.Forgets action) := by
  cases action with
  | initializeNode nodeid addr =>
    cases done
    obtain ⟨owned, drifts⟩ := h.initializeNode nodeid addr
    exact ⟨owned, iff_of_true drifts id⟩
  | finalizeNode nodeid =>
    obtain ⟨owned, drifts⟩ := h.finalizeNode done
    refine ⟨owned, ?_⟩
    have none : (s.inFlight nodeid).countP (fun entry => entry.2.fValidatedHeaders) = 0 ↔
        ¬ s.Forgets (.finalizeNode nodeid) := by
      simp [Forgets, countP_eq_zero]
    rw [← none]
    omega
  | markBlockAsReceived hash =>
    obtain ⟨received, hreceived, owned, drifts, -⟩ := h.markBlockAsReceived hash
    have same : s' = received := Option.some_inj.mp (done.symm.trans hreceived)
    subst same
    exact ⟨owned, iff_of_true drifts id⟩
  | markBlockAsInFlight nodeid hash pindex getTimeMicros =>
    obtain ⟨owned, drifts⟩ := h.markBlockAsInFlight done
    exact ⟨owned, iff_of_true drifts id⟩

end InFlightState

/-- The counter agrees with the lists in all that a sequence of calls goes through exactly when no
peer is finalized while a block with a validated header is in flight from it. -/
theorem inFlight_consistent_iff (actions : List InFlightAction) :
    (∀ part, part <+: actions → ∀ s,
        run (orFail inFlightStep) (some .init) part = some s →
          InFlightConsistent s) ↔
      StepRun.AllSteps (orFail inFlightStep)
        (fun state action => ∀ s, state = some s → ¬ s.Forgets action) (some .init) actions := by
  apply forall_prefix_iff_allSteps (I := fun state => ∀ s, state = some s → s.Owned)
    (K := fun state => ∀ s, state = some s → InFlightConsistent s)
  · rintro (_ | s) action owned s' done
    · cases done
    · exact ((owned s rfl).step done).1
  · rintro (_ | s) action owned consistent
    · simp [orFail]
    have known := (InFlightState.consistent_iff (owned s rfl)).mp (consistent s rfl)
    simp only [orFail, Option.bind_some, Option.some.injEq, forall_eq']
    cases done : inFlightStep s action with
    | none =>
      refine iff_of_true (by simp) ?_
      intro forgets
      cases action with
      | finalizeNode nodeid =>
        obtain ⟨entry, member, -⟩ := forgets
        have unknown : s.mapNodeState.lookup nodeid = none := by
          simpa [inFlightStep, finalizeNode] using done
        simp [InFlightState.inFlight, unknown] at member
      | initializeNode nodeid addr => exact forgets
      | markBlockAsReceived hash => exact forgets
      | markBlockAsInFlight nodeid hash pindex getTimeMicros => exact forgets
    | some s' =>
      obtain ⟨owned', drifts⟩ := (owned s rfl).step done
      simp only [Option.some.injEq, forall_eq']
      rw [InFlightState.consistent_iff owned', ← drifts, known]
  · rintro s ⟨⟩
    exact InFlightState.owned_init
  · rintro s ⟨⟩
    exact (InFlightState.consistent_iff InFlightState.owned_init).mpr InFlightState.drift_init

/-- A peer is asked for a block with a validated header and leaves: the counter stays at 1. -/
theorem inFlight_counter_left_behind :
    ∃ s, run (orFail inFlightStep) (some .init)
        [.initializeNode 1 ⟨Vector.replicate 16 0, 0⟩, .markBlockAsInFlight 1 7 (some 7) 0,
          .finalizeNode 1] = some s ∧ ¬ InFlightConsistent s := by
  refine ⟨_, rfl, fun consistent => ?_⟩
  have queued := consistent.queued
  revert queued
  decide

end Esbcoin
