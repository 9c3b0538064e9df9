import Mathlib.Data.List.Sort
import Esbcoin.Masternode.Announcement

/-!
# Broadcasts and their sync entries

`CheckAndRemove` keeps two maps in step while it erases (`src/masternodeman.cpp:267-381`): the
broadcasts seen, and the entries of `masternodeSync.mapSeenSyncMNB` under the same hashes. The
second of its loops asks the iterator for a hash after it has moved on, so it erases the entry of
the broadcast behind the expired one.
-/

namespace Esbcoin

open AssocMap List

/-- The manager with the sync entries of its broadcasts, which are filed under their hashes. -/
structure SyncedMan (net : MasternodeNet) extends CMasternodeMan where
  /-- `masternodeSync.mapSeenSyncMNB` (`masternode-sync.h:30`). -/
  mapSeenSyncMNB : AssocMap UInt256 Int
  hashed : ∀ {hash mnb}, mapSeenMasternodeBroadcast.lookup hash = some mnb → mnb.getHash net = hash

/-- The two maps. -/
abbrev SeenMaps := AssocMap UInt256 CMasternodeBroadcast × AssocMap UInt256 Int

/-- An entry of the broadcasts seen. -/
abbrev SeenEntry := Sigma fun _ : UInt256 => CMasternodeBroadcast

/-- The broadcasts of a masternode that leaves the list (`masternodeman.cpp:282-293`). -/
def eraseBroadcasts (maps : SeenMaps) (mn : ListedMasternode) : SeenMaps :=
  (maps.1.retain fun _ mnb => !(mnb.vin == mn.vin),
    eraseAll maps.2
      ((maps.1.entries.filter fun e : SeenEntry => e.2.vin == mn.vin).map Sigma.fst))

/-- The broadcasts in the order of their hashes, in which an iterator visits them. -/
def inHashOrder (seen : AssocMap UInt256 CMasternodeBroadcast) : List SeenEntry :=
  seen.entries.insertionSort fun e e' => e.1.toNat ≤ e'.1.toNat

/-- A last ping before this time is too old (`masternodeman.cpp:364`). -/
def pingExpired (oldest : Int) (e : SeenEntry) : Bool := decide (e.2.lastPing.sigTime < oldest)

/-- The loop over the expired broadcasts (`masternodeman.cpp:361-370`): `erase(it3++)`, then the
hash of what `it3` points to. `none` where that is the end of the map. -/
def eraseExpired (net : MasternodeNet) (oldest : Int) : List SeenEntry → SeenMaps → Option SeenMaps
  | [], maps => some maps
  | e :: rest, maps =>
    if pingExpired oldest e then
      rest.head?.bind fun next =>
        eraseExpired net oldest rest
          (AList.erase e.1 maps.1, AList.erase (next.2.getHash net) maps.2)
    else eraseExpired net oldest rest maps

namespace SyncedMan

variable {net : MasternodeNet} (env : MasternodeEnv) (forceExpiredRemoval : Bool)
  (s : SyncedMan net)

/-- The masternodes that leave the list. -/
def leaving : List ListedMasternode :=
  (s.toCMasternodeMan.checkAll env).vMasternodes.filter
    (CMasternodeMan.isOut env forceExpiredRemoval)

/-- The maps behind the first loop. -/
def firstMaps : SeenMaps :=
  (s.leaving env forceExpiredRemoval).foldl eraseBroadcasts
    (s.mapSeenMasternodeBroadcast, s.mapSeenSyncMNB)

/-- The time before which a last ping is too old. -/
def oldestPing (env : MasternodeEnv) : Int := env.time - MASTERNODE_REMOVAL_SECONDS * 2

/-- What `CMasternodeMan::CheckAndRemove` (`masternodeman.cpp:267-381`) makes of the two maps. -/
def checkedMaps : Option SeenMaps :=
  eraseExpired net (oldestPing env) (inHashOrder (s.firstMaps env forceExpiredRemoval).1)
    (s.firstMaps env forceExpiredRemoval)

end SyncedMan

/-! ## The first loop -/

/-- The broadcast is of a masternode that leaves. -/
def isBroadcastOf (leaving : List ListedMasternode) (mnb : CMasternodeBroadcast) : Bool :=
  leaving.any fun mn => mnb.vin == mn.vin

theorem isBroadcastOf_cons (mn : ListedMasternode) (leaving : List ListedMasternode)
    (mnb : CMasternodeBroadcast) :
    isBroadcastOf (mn :: leaving) mnb = (mnb.vin == mn.vin || isBroadcastOf leaving mnb) := rfl

theorem mem_keys_broadcasts {maps : SeenMaps} {mn : ListedMasternode} {hash : UInt256} :
    hash ∈ (maps.1.entries.filter fun e : SeenEntry => e.2.vin == mn.vin).map Sigma.fst ↔
      ∃ mnb ∈ maps.1.lookup hash, (mnb.vin == mn.vin) = true := by
  simp only [mem_map, mem_filter]
  constructor
  · rintro ⟨⟨key, mnb⟩, ⟨member, own⟩, rfl⟩
    exact ⟨mnb, AList.mem_lookup_iff.mpr member, own⟩
  · rintro ⟨mnb, found, own⟩
    exact ⟨⟨hash, mnb⟩, ⟨AList.mem_lookup_iff.mp found, own⟩, rfl⟩

/-- What the first loop leaves under a hash: nothing for a broadcast of one that leaves. -/
theorem eraseBroadcasts_lookup (leaving : List ListedMasternode) (maps : SeenMaps)
    (hash : UInt256) :
    (leaving.foldl eraseBroadcasts maps).1.lookup hash =
        (maps.1.lookup hash).filter (fun mnb => !isBroadcastOf leaving mnb) ∧
      (leaving.foldl eraseBroadcasts maps).2.lookup hash =
        if ∃ mnb ∈ maps.1.lookup hash, isBroadcastOf leaving mnb = true then none
        else maps.2.lookup hash := by
  induction leaving generalizing maps with
  | nil =>
    have nobody : ¬ ∃ mnb ∈ maps.1.lookup hash, isBroadcastOf [] mnb = true := by
      rintro ⟨mnb, -, own⟩
      cases own
    refine ⟨?_, (if_neg nobody).symm⟩
    show maps.1.lookup hash = _
    cases maps.1.lookup hash <;> rfl
  | cons mn leaving ih =>
    obtain ⟨seen, sync⟩ := ih (eraseBroadcasts maps mn)
    have seenFirst : (eraseBroadcasts maps mn).1.lookup hash =
        (maps.1.lookup hash).filter fun mnb => !(mnb.vin == mn.vin) :=
      lookup_retain _ _ _
    have syncFirst : (eraseBroadcasts maps mn).2.lookup hash =
        if ∃ mnb ∈ maps.1.lookup hash, (mnb.vin == mn.vin) = true then none
        else maps.2.lookup hash := by
      show AList.lookup hash (eraseAll maps.2 _) = _
      rw [lookup_eraseAll]
      exact if_congr mem_keys_broadcasts rfl rfl
    rw [foldl_cons, seen, sync, seenFirst, syncFirst]
    cases maps.1.lookup hash with
    | none => simp
    | some mnb =>
      simp only [isBroadcastOf_cons]
      by_cases own : mnb.vin = mn.vin
      · simp [own]
      · cases isBroadcastOf leaving mnb <;> simp [own]

/-! ## The second loop -/

/-- Is the last of these expired, or is nothing there behind one that is? -/
def endsExpired (oldest : Int) : Bool → List SeenEntry → Bool
  | before, [] => before
  | _, e :: rest => endsExpired oldest (pingExpired oldest e) rest

/-- The hashes right behind expired broadcasts. -/
def behindExpired (oldest : Int) : Bool → List SeenEntry → List UInt256
  | _, [] => []
  | before, e :: rest =>
    (if before then [e.1] else []) ++ behindExpired oldest (pingExpired oldest e) rest

variable {entries : List SeenEntry} {oldest : Int}

/-- The loop erases the expired broadcasts, and the sync entries of those behind them. -/
theorem eraseExpired_eq {net : MasternodeNet} (hashed : ∀ e ∈ entries, e.2.getHash net = e.1)
    (maps : SeenMaps) :
    eraseExpired net oldest entries maps = if endsExpired oldest false entries then none
      else some (eraseAll maps.1 ((entries.filter (pingExpired oldest)).map Sigma.fst),
        eraseAll maps.2 (behindExpired oldest false entries)) := by
  induction entries generalizing maps with
  | nil => rfl
  | cons e rest ih =>
    have hashedRest := fun e' member => hashed e' (mem_cons_of_mem e member)
    rw [eraseExpired]
    cases expired : pingExpired oldest e with
    | false =>
      rw [if_neg Bool.false_ne_true, ih hashedRest, endsExpired, behindExpired, expired,
        filter_cons_of_neg (by rw [expired]; exact Bool.false_ne_true)]
      rfl
    | true =>
      rw [if_pos rfl]
      cases rest with
      | nil =>
        rw [endsExpired, expired]
        rfl
      | cons next rest' =>
        rw [List.head?_cons, Option.bind_some, ih hashedRest,
          hashed next (mem_cons_of_mem e mem_cons_self), filter_cons_of_pos expired]
        rw [endsExpired, endsExpired, endsExpired, behindExpired, behindExpired, behindExpired,
          expired]
        rfl

theorem mem_keys_of_behindExpired {before : Bool} {hash : UInt256}
    (member : hash ∈ behindExpired oldest before entries) : hash ∈ entries.map Sigma.fst := by
  induction entries generalizing before with
  | nil => exact member
  | cons e rest ih =>
    rw [behindExpired, mem_append] at member
    rcases member with own | later
    · split at own
      · exact mem_cons.mpr (Or.inl (mem_singleton.mp own))
      · cases own
    · exact mem_cons_of_mem _ (ih later)

/-- Along the broadcasts in order: one that is expired while the one in front is not, or the other
way round, has no sync entry, and the last is not expired. -/
def Aligned (sync : AssocMap UInt256 Int) (oldest : Int) : Bool → List SeenEntry → Prop
  | before, [] => before = false
  | before, e :: rest =>
    (before = pingExpired oldest e ∨ sync.lookup e.1 = none) ∧
      Aligned sync oldest (pingExpired oldest e) rest

theorem aligned_iff {sync : AssocMap UInt256 Int} {before : Bool}
    (distinct : (entries.map Sigma.fst).Nodup) :
    Aligned sync oldest before entries ↔
      endsExpired oldest before entries = false ∧
        ∀ e ∈ entries, (e.1 ∈ behindExpired oldest before entries ↔
          pingExpired oldest e = true) ∨ sync.lookup e.1 = none := by
  induction entries generalizing before with
  | nil => simp [Aligned, endsExpired]
  | cons e rest ih =>
    obtain ⟨fresh, distinctRest⟩ := nodup_cons.mp distinct
    have own : e.1 ∈ behindExpired oldest before (e :: rest) ↔ before = true := by
      rw [behindExpired, mem_append]
      constructor
      · rintro (first | later)
        · by_contra no
          rw [if_neg no] at first
          cases first
        · exact absurd (mem_keys_of_behindExpired later) fresh
      · intro yes
        rw [if_pos yes]
        exact Or.inl mem_cons_self
    have others : ∀ e' ∈ rest, (e'.1 ∈ behindExpired oldest before (e :: rest) ↔
        e'.1 ∈ behindExpired oldest (pingExpired oldest e) rest) := by
      intro e' member
      have ne : e'.1 ≠ e.1 := by
        intro equal
        exact fresh (equal ▸ mem_map_of_mem member)
      rw [behindExpired, mem_append, or_iff_right]
      intro first
      split at first
      · exact ne (mem_singleton.mp first)
      · cases first
    rw [Aligned, ih distinctRest, endsExpired, forall_mem_cons, own]
    have same : (before = pingExpired oldest e) ↔
        (before = true ↔ pingExpired oldest e = true) := Bool.eq_iff_iff
    rw [same]
    constructor
    · rintro ⟨first, ends, rest'⟩
      exact ⟨ends, first, fun e' member => by rw [others e' member]; exact rest' e' member⟩
    · rintro ⟨ends, first, rest'⟩
      exact ⟨first, ends, fun e' member => by rw [← others e' member]; exact rest' e' member⟩

/-! ## What a pass removes -/

namespace SyncedMan

variable {net : MasternodeNet} (env : MasternodeEnv) (forceExpiredRemoval : Bool)
  (s : SyncedMan net)

/-- The broadcast is one of a masternode that leaves, or its last ping is too old. -/
def goes (mnb : CMasternodeBroadcast) : Bool :=
  isBroadcastOf (s.leaving env forceExpiredRemoval) mnb ||
    decide (mnb.lastPing.sigTime < oldestPing env)

/-- The broadcasts that the first loop leaves, in the order of their hashes. -/
def remaining : List SeenEntry := inHashOrder (s.firstMaps env forceExpiredRemoval).1

/-- The pass reads nothing past the end, it removes exactly the broadcasts that go, and with them
exactly their sync entries. -/
def RemovesExactly : Prop :=
  ∃ maps ∈ s.checkedMaps env forceExpiredRemoval,
    (∀ hash, maps.1.lookup hash = (s.mapSeenMasternodeBroadcast.lookup hash).filter fun mnb =>
      !s.goes env forceExpiredRemoval mnb) ∧
    ∀ hash, maps.2.lookup hash =
      if ∃ mnb ∈ s.mapSeenMasternodeBroadcast.lookup hash,
        s.goes env forceExpiredRemoval mnb = true then none
      else s.mapSeenSyncMNB.lookup hash

theorem firstMaps_lookup (hash : UInt256) :
    (s.firstMaps env forceExpiredRemoval).1.lookup hash =
        (s.mapSeenMasternodeBroadcast.lookup hash).filter
          (fun mnb => !isBroadcastOf (s.leaving env forceExpiredRemoval) mnb) ∧
      (s.firstMaps env forceExpiredRemoval).2.lookup hash =
        if ∃ mnb ∈ s.mapSeenMasternodeBroadcast.lookup hash,
          isBroadcastOf (s.leaving env forceExpiredRemoval) mnb = true then none
        else s.mapSeenSyncMNB.lookup hash :=
  eraseBroadcasts_lookup _ _ hash

theorem mem_remaining {e : SeenEntry} :
    e ∈ s.remaining env forceExpiredRemoval ↔
      s.mapSeenMasternodeBroadcast.lookup e.1 = some e.2 ∧
        isBroadcastOf (s.leaving env forceExpiredRemoval) e.2 = false := by
  rw [remaining, inHashOrder, mem_insertionSort, ← AList.mem_lookup_iff, Option.mem_def,
    (s.firstMaps_lookup env forceExpiredRemoval e.1).1, Option.filter_eq_some_iff,
    Bool.not_eq_true']

theorem remaining_nodup : ((s.remaining env forceExpiredRemoval).map Sigma.fst).Nodup :=
  ((perm_insertionSort _ _).map Sigma.fst).nodup_iff.mpr
    (s.firstMaps env forceExpiredRemoval).1.nodupKeys

theorem checkedMaps_eq :
    s.checkedMaps env forceExpiredRemoval =
      if endsExpired (oldestPing env) false (s.remaining env forceExpiredRemoval) then none
      else some
        (eraseAll (s.firstMaps env forceExpiredRemoval).1
          (((s.remaining env forceExpiredRemoval).filter (pingExpired (oldestPing env))).map
            Sigma.fst),
        eraseAll (s.firstMaps env forceExpiredRemoval).2
          (behindExpired (oldestPing env) false (s.remaining env forceExpiredRemoval))) :=
  eraseExpired_eq (fun _ member => s.hashed ((s.mem_remaining env forceExpiredRemoval).mp member).1)
    _

/-- The expired broadcasts of those that the first loop leaves. -/
theorem mem_expired {hash : UInt256} :
    hash ∈ ((s.remaining env forceExpiredRemoval).filter (pingExpired (oldestPing env))).map
        Sigma.fst ↔
      ∃ mnb ∈ s.mapSeenMasternodeBroadcast.lookup hash,
        isBroadcastOf (s.leaving env forceExpiredRemoval) mnb = false ∧
          mnb.lastPing.sigTime < oldestPing env := by
  simp only [mem_map, mem_filter, mem_remaining, pingExpired, decide_eq_true_eq]
  constructor
  · rintro ⟨⟨key, mnb⟩, ⟨⟨found, stays⟩, old⟩, rfl⟩
    exact ⟨mnb, found, stays, old⟩
  · rintro ⟨mnb, found, stays, old⟩
    exact ⟨⟨hash, mnb⟩, ⟨⟨found, stays⟩, old⟩, rfl⟩

/-- The broadcasts are the right ones wherever the loop ends well. -/
theorem seen_checked (hash : UInt256) :
    (eraseAll (s.firstMaps env forceExpiredRemoval).1
        (((s.remaining env forceExpiredRemoval).filter (pingExpired (oldestPing env))).map
          Sigma.fst)).lookup hash =
      (s.mapSeenMasternodeBroadcast.lookup hash).filter fun mnb =>
        !s.goes env forceExpiredRemoval mnb := by
  rw [lookup_eraseAll, (s.firstMaps_lookup env forceExpiredRemoval hash).1]
  simp only [mem_expired]
  unfold goes
  cases s.mapSeenMasternodeBroadcast.lookup hash with
  | none => simp
  | some mnb =>
    cases own : isBroadcastOf (s.leaving env forceExpiredRemoval) mnb with
    | true => simp [own, Option.filter]
    | false =>
      by_cases old : mnb.lastPing.sigTime < oldestPing env
      · simp [own, old, Option.filter]
      · simp [own, old, Option.filter]

/-- The sync entry under a hash is the right one if and only if the broadcast there, if it is one
that the first loop leaves, is treated as its own ping says or has no entry. -/
theorem sync_checked_iff (hash : UInt256) :
    (eraseAll (s.firstMaps env forceExpiredRemoval).2
        (behindExpired (oldestPing env) false (s.remaining env forceExpiredRemoval))).lookup hash =
      (if ∃ mnb ∈ s.mapSeenMasternodeBroadcast.lookup hash,
        s.goes env forceExpiredRemoval mnb = true then none
      else s.mapSeenSyncMNB.lookup hash) ↔
    ∀ e ∈ s.remaining env forceExpiredRemoval, e.1 = hash →
      (e.1 ∈ behindExpired (oldestPing env) false (s.remaining env forceExpiredRemoval) ↔
        pingExpired (oldestPing env) e = true) ∨ s.mapSeenSyncMNB.lookup e.1 = none := by
  rw [lookup_eraseAll, (s.firstMaps_lookup env forceExpiredRemoval hash).2]
  have entry : ∀ e ∈ s.remaining env forceExpiredRemoval, e.1 = hash →
      s.mapSeenMasternodeBroadcast.lookup hash = some e.2 ∧
        isBroadcastOf (s.leaving env forceExpiredRemoval) e.2 = false := by
    rintro e member rfl
    exact (s.mem_remaining env forceExpiredRemoval).mp member
  have kept : hash ∈ behindExpired (oldestPing env) false (s.remaining env forceExpiredRemoval) →
      ∃ e ∈ s.remaining env forceExpiredRemoval, e.1 = hash := fun member =>
    mem_map.mp (mem_keys_of_behindExpired member)
  cases found : s.mapSeenMasternodeBroadcast.lookup hash with
  | none =>
    have absent : hash ∉ behindExpired (oldestPing env) false
        (s.remaining env forceExpiredRemoval) := by
      intro member
      obtain ⟨e, remains, own⟩ := kept member
      exact nomatch found.symm.trans (entry e remains own).1
    refine iff_of_true (by simp [absent]) fun e member own => ?_
    exact nomatch found.symm.trans (entry e member own).1
  | some mnb =>
    cases own : isBroadcastOf (s.leaving env forceExpiredRemoval) mnb with
    | true =>
      refine iff_of_true (by simp [goes, own]) fun e member equal => ?_
      have stays := (entry e member equal).2
      rw [← Option.some.inj (found.symm.trans (entry e member equal).1), own] at stays
      cases stays
    | false =>
      have remains : (⟨hash, mnb⟩ : SeenEntry) ∈ s.remaining env forceExpiredRemoval :=
        (s.mem_remaining env forceExpiredRemoval).mpr ⟨found, own⟩
      have only : (∀ e ∈ s.remaining env forceExpiredRemoval, e.1 = hash →
          (e.1 ∈ behindExpired (oldestPing env) false (s.remaining env forceExpiredRemoval) ↔
            pingExpired (oldestPing env) e = true) ∨ s.mapSeenSyncMNB.lookup e.1 = none) ↔
          (hash ∈ behindExpired (oldestPing env) false (s.remaining env forceExpiredRemoval) ↔
            mnb.lastPing.sigTime < oldestPing env) ∨ s.mapSeenSyncMNB.lookup hash = none := by
        constructor
        · intro all
          have one := all ⟨hash, mnb⟩ remains rfl
          rwa [pingExpired, decide_eq_true_eq] at one
        · rintro one ⟨key, mnb'⟩ member rfl
          obtain rfl := Option.some.inj (found.symm.trans (entry _ member rfl).1)
          rwa [pingExpired, decide_eq_true_eq]
      rw [only]
      by_cases behind : hash ∈ behindExpired (oldestPing env) false
        (s.remaining env forceExpiredRemoval)
      · by_cases old : mnb.lastPing.sigTime < oldestPing env
        · simp [goes, own, behind, old]
        simp only [behind, if_true, goes, own, old, Option.mem_def, Option.some.injEq,
          exists_eq_left', Bool.false_or, decide_false, Bool.false_eq_true, if_false, iff_false,
          not_true_eq_false, false_or]
        exact eq_comm
      · by_cases old : mnb.lastPing.sigTime < oldestPing env
        · simp [goes, own, behind, old]
        · simp [goes, own, behind, old]

/-- A pass removes exactly what it should if and only if the broadcasts that its first loop leaves
are aligned with their sync entries. -/
theorem removesExactly_iff :
    s.RemovesExactly env forceExpiredRemoval ↔
      Aligned s.mapSeenSyncMNB (oldestPing env) false (s.remaining env forceExpiredRemoval) := by
  rw [aligned_iff (s.remaining_nodup env forceExpiredRemoval), RemovesExactly,
    s.checkedMaps_eq env forceExpiredRemoval]
  cases ends : endsExpired (oldestPing env) false (s.remaining env forceExpiredRemoval) with
  | true =>
    rw [if_pos rfl]
    exact iff_of_false (fun ⟨_, never, _⟩ => nomatch never) (fun both => nomatch both.1)
  | false =>
    rw [if_neg Bool.false_ne_true]
    constructor
    · rintro ⟨maps, ⟨⟩, -, sync⟩
      refine ⟨rfl, fun e member => ?_⟩
      exact (s.sync_checked_iff env forceExpiredRemoval e.1).mp (sync e.1) e member rfl
    · rintro ⟨-, agrees⟩
      refine ⟨_, rfl, s.seen_checked env forceExpiredRemoval, fun hash => ?_⟩
      exact (s.sync_checked_iff env forceExpiredRemoval hash).mpr fun e member _ => agrees e member

end SyncedMan

/-! ## An expired broadcast in front of another -/

def pingedBroadcast (sigTime pinged : Int) : CMasternodeBroadcast :=
  sampleBroadcast ⟨5, 0⟩ (sampleService 4) sigTime { sigTime := pinged }

def twoBroadcasts (firstPing secondPing : Int) : SyncedMan sampleNet where
  mapSeenMasternodeBroadcast :=
    AList.insert 2 (pingedBroadcast 2 secondPing) (AList.insert 1 (pingedBroadcast 1 firstPing) ∅)
  mapSeenSyncMNB := AList.insert 2 1 (AList.insert 1 1 ∅)
  hashed := by
    intro hash mnb found
    rw [lookup_insert_eq, lookup_insert_eq] at found
    split at found
    · rename_i second
      subst second
      rw [← Option.some.inj found]
      show BitVec.ofInt 256 2 = 2
      decide +kernel
    split at found
    · rename_i first
      subst first
      rw [← Option.some.inj found]
      show BitVec.ofInt 256 1 = 1
      decide +kernel
    · cases found

/-- The pass erases the sync entry of the broadcast that stays and keeps the expired one's. -/
theorem wrong_sync_entry_erased :
    ¬ (twoBroadcasts 0 1600000000).RemovesExactly (sampleMasternodeEnv [] 1600000000) false := by
  rintro ⟨maps, checked, -, sync⟩
  have stays := sync 2
  have entry : (((twoBroadcasts 0 1600000000).checkedMaps (sampleMasternodeEnv [] 1600000000)
      false).map fun maps => maps.2.lookup 2) = some none := by
    decide +kernel
  rw [checked, Option.map_some, stays] at entry
  revert entry
  decide +kernel

example : ((twoBroadcasts 1600000000 0).checkedMaps (sampleMasternodeEnv [] 1600000000)
    false).isNone = true := by decide +kernel

end Esbcoin
