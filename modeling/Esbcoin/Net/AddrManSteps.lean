import Esbcoin.Net.AddrManCheck

namespace Esbcoin

open SlotTable CrossIndex AssocMap

namespace CAddrInfo

/-- An entry without its position in the vector. -/
def unplaced (info : CAddrInfo) : CAddrInfo := { info with nRandomPos := 0 }

variable {hashLow64 : List UInt8 → UInt64} {nKey : UInt256} {info info' : CAddrInfo}

/-- The slots of an entry depend on its service. -/
theorem newSlotIn_congr (same : info'.service = info.service)
    (bucket : Fin ADDRMAN_NEW_BUCKET_COUNT) :
    info'.newSlotIn hashLow64 nKey bucket = info.newSlotIn hashLow64 nKey bucket := by
  rw [newSlotIn, newSlotIn, getBucketPosition, getBucketPosition, same]

theorem triedSlot_congr (same : info'.service = info.service) :
    info'.triedSlot hashLow64 nKey = info.triedSlot hashLow64 nKey := by
  simp only [triedSlot, getTriedBucket, getBucketPosition, same]

end CAddrInfo

namespace CAddrMan

variable {hashLow64 : List UInt8 → UInt64} {pending : Set Nat} {newAhead triedAhead : Int}
  {s s' : CAddrMan} {nId : Nat} {info : CAddrInfo}

/-- A change that keeps the address and the position of an entry. -/
structure KeepsLinks (change : CAddrInfo → CAddrInfo) : Prop where
  service : ∀ info, (change info).service = info.service
  nRandomPos : ∀ info, (change info).nRandomPos = info.nRandomPos

/-- The maps of `s'` are those of `s` with one entry changed. -/
structure Changed (s s' : CAddrMan) (nId : Nat) (change : CAddrInfo → CAddrInfo) : Prop where
  nKey : s'.nKey = s.nKey
  nIdCount : s'.nIdCount = s.nIdCount
  mapInfo : s'.mapInfo = s.mapInfo.modify nId change
  mapAddr : s'.mapAddr = s.mapAddr
  vRandom : s'.vRandom = s.vRandom

namespace Changed

variable {change : CAddrInfo → CAddrInfo}

section

variable (changed : Changed s s' nId change)
include changed

theorem lookup (k : Nat) :
    s'.mapInfo.lookup k =
      if k = nId then (s.mapInfo.lookup nId).map change else s.mapInfo.lookup k := by
  rw [changed.mapInfo, lookup_modify]

theorem lookup_self (found : s.mapInfo.lookup nId = some info) :
    s'.mapInfo.lookup nId = some (change info) := by
  rw [changed.lookup, if_pos rfl, found]
  rfl

theorem lookup_other {k : Nat} (apart : k ≠ nId) :
    s'.mapInfo.lookup k = s.mapInfo.lookup k := by
  rw [changed.lookup, if_neg apart]

/-- The entry that an entry came from. -/
theorem before {k : Nat} {info' : CAddrInfo} (found : s'.mapInfo.lookup k = some info') :
    ∃ info, s.mapInfo.lookup k = some info ∧ info' = if k = nId then change info else info := by
  rw [changed.lookup] at found
  by_cases same : k = nId
  · subst same
    rw [if_pos rfl] at found
    obtain ⟨info, there, rfl⟩ := Option.map_eq_some_iff.mp found
    exact ⟨info, there, (if_pos rfl).symm⟩
  · rw [if_neg same] at found
    exact ⟨info', found, (if_neg same).symm⟩

/-- What an entry became. -/
theorem after {k : Nat} (found : s.mapInfo.lookup k = some info) :
    s'.mapInfo.lookup k = some (if k = nId then change info else info) := by
  by_cases same : k = nId
  · subst same
    rw [changed.lookup_self found, if_pos rfl]
  · rw [changed.lookup_other same, found, if_neg same]

theorem indexed (keeps : KeepsLinks change) (indexed : Indexed s) : Indexed s' where
  fresh k info' found := by
    obtain ⟨info, there, -⟩ := changed.before found
    rw [changed.nIdCount]
    exact indexed.fresh k info there
  inverse := by
    rw [changed.mapAddr]
    apply indexed.inverse.congr
    intro k
    rw [addrOf, addrOf, changed.lookup]
    by_cases same : k = nId
    · subst same
      rw [if_pos rfl, Option.map_map]
      congr 1
      funext info
      exact congrArg CService.ip (keeps.service info)
    · rw [if_neg same]
  placed := by
    rw [changed.vRandom]
    apply indexed.placed.congr
    intro k
    rw [placeOf, placeOf, changed.lookup]
    by_cases same : k = nId
    · subst same
      rw [if_pos rfl, Option.map_map]
      congr 1
      funext info
      exact keeps.nRandomPos info
    · rw [if_neg same]

/-- The slots of the "new" table that were right still are. -/
theorem newSlot (keeps : KeepsLinks change) {slot : NewSlot} {k : Nat}
    (right : ∃ info, s.mapInfo.lookup k = some info ∧ slot = info.newSlotIn hashLow64 s.nKey slot.1)
    :
    ∃ info, s'.mapInfo.lookup k = some info ∧ slot = info.newSlotIn hashLow64 s'.nKey slot.1 := by
  obtain ⟨info, found, own⟩ := right
  refine ⟨_, changed.after found, ?_⟩
  rw [changed.nKey, @CAddrInfo.newSlotIn_congr _ _ info, ← own]
  by_cases same : k = nId
  · rw [if_pos same, keeps.service]
  · rw [if_neg same]

/-- The slots of the "tried" table that were right still are. -/
theorem triedSlot (keeps : KeepsLinks change)
    (flag : ∀ info, (change info).fInTried = info.fInTried) {slot : TriedSlot} {k : Nat}
    (right : ∃ info, s.mapInfo.lookup k = some info ∧ info.fInTried = true ∧
      slot = info.triedSlot hashLow64 s.nKey)
    :
    ∃ info, s'.mapInfo.lookup k = some info ∧ info.fInTried = true ∧
      slot = info.triedSlot hashLow64 s'.nKey := by
  obtain ⟨info, found, isTried, own⟩ := right
  refine ⟨_, changed.after found, ?_, ?_⟩
  · by_cases same : k = nId
    · rw [if_pos same, flag, isTried]
    · rw [if_neg same, isTried]
  rw [changed.nKey, @CAddrInfo.triedSlot_congr _ _ info, ← own]
  by_cases same : k = nId
  · rw [if_pos same, keeps.service]
  · rw [if_neg same]

theorem count {p : CAddrInfo → Bool} (same : ∀ info, p (change info) = p info) :
    s'.mapInfo.count p = s.mapInfo.count p := by
  rw [changed.mapInfo, count_modify_of_same same]

/-- An entry that changes its table is counted for the other one. -/
theorem count_flip (found : s.mapInfo.lookup nId = some info) {p : CAddrInfo → Bool}
    (before : p info = true) (after : p (change info) = false) :
    s.mapInfo.count p = s'.mapInfo.count p + 1 ∧
      (s'.mapInfo.count fun info => !p info) = (s.mapInfo.count fun info => !p info) + 1 := by
  have left := count_modify found change p
  have entered := count_modify found change fun info => !p info
  simp only [before, after, Bool.not_true, Bool.not_false, Bool.false_eq_true, if_true, if_false]
    at left entered
  rw [changed.mapInfo]
  exact ⟨left.symm, entered⟩

end

end Changed

/-- An entry stays in its place where the tables hold it as before. -/
theorem InPlace.keep {pending' : Set Nat} (place : InPlace hashLow64 pending s nId info)
    (nKey : s'.nKey = s.nKey) (count : held newSlots s'.vvNew nId = held newSlots s.vvNew nId)
    (tried : ∀ slot, s.vvTried slot = some nId → s'.vvTried slot = some nId)
    (waits : nId ∈ pending → nId ∈ pending') : InPlace hashLow64 pending' s' nId info where
  refs := by rw [count, place.refs]
  few := by
    rw [count]
    exact place.few
  new isNew settled := by
    rw [count]
    exact place.new isNew fun member => settled (waits member)
  tried isTried := by
    obtain ⟨nowhere, own, success⟩ := place.tried isTried
    rw [count, nKey]
    exact ⟨nowhere, tried _ own, success⟩
  times := place.times

namespace Tracked

theorem mono {larger : Set Nat} (tracked : Tracked hashLow64 pending newAhead triedAhead s)
    (sub : pending ⊆ larger) : Tracked hashLow64 larger newAhead triedAhead s :=
  { tracked with
    inPlace := fun nId info found =>
      { tracked.inPlace nId info found with
        new := fun isNew waits =>
          (tracked.inPlace nId info found).new isNew fun member => waits (sub member) } }

/-- An entry that has a place, or that is not there, does not wait. -/
theorem settle (tracked : Tracked hashLow64 (insert nId pending) newAhead triedAhead s)
    (settled : ∀ info, s.mapInfo.lookup nId = some info → info.fInTried = false →
      1 ≤ held newSlots s.vvNew nId) : Tracked hashLow64 pending newAhead triedAhead s :=
  { tracked with
    inPlace := fun k info found =>
      { tracked.inPlace k info found with
        new := fun isNew waits => by
          by_cases same : k = nId
          · subst same
            exact settled info found isNew
          · exact (tracked.inPlace k info found).new isNew fun member =>
              (Set.mem_insert_iff.mp member).elim same waits } }

section

variable (tracked : Tracked hashLow64 pending newAhead triedAhead s)
include tracked

/-- When every entry has a place, none waits. -/
theorem settleAll
    (settled : ∀ nId info, s.mapInfo.lookup nId = some info → info.fInTried = false →
      1 ≤ held newSlots s.vvNew nId)
    : Tracked hashLow64 ∅ newAhead triedAhead s :=
  { tracked with
    inPlace := fun k info found =>
      { tracked.inPlace k info found with new := fun isNew _ => settled k info found isNew } }

/-- The counter of the "new" entries is written. -/
theorem countNew (d : Int) :
    Tracked hashLow64 pending (newAhead + d) triedAhead { s with nNew := s.nNew + d } :=
  { fresh := tracked.fresh
    inverse := tracked.inverse
    placed := tracked.placed
    newSlot := tracked.newSlot
    triedSlot := tracked.triedSlot
    inPlace := fun k info found => (tracked.inPlace k info found).keep rfl rfl (fun _ => id) id
    nNew := by
      rw [tracked.nNew, Int.add_assoc]
    nTried := tracked.nTried }

/-- The counter of the "tried" entries is written. -/
theorem countTried (d : Int) :
    Tracked hashLow64 pending newAhead (triedAhead + d) { s with nTried := s.nTried + d } :=
  { fresh := tracked.fresh
    inverse := tracked.inverse
    placed := tracked.placed
    newSlot := tracked.newSlot
    triedSlot := tracked.triedSlot
    inPlace := fun k info found => (tracked.inPlace k info found).keep rfl rfl (fun _ => id) id
    nNew := tracked.nNew
    nTried := by
      rw [tracked.nTried, Int.add_assoc] }

/-- A change of an entry that its place does not depend on. -/
theorem changeInfo (nId : Nat) (change : CAddrInfo → CAddrInfo) (keeps : KeepsLinks change)
    (refs : ∀ info, (change info).nRefCount = info.nRefCount)
    (flag : ∀ info, (change info).fInTried = info.fInTried)
    (times : ∀ info, s.mapInfo.lookup nId = some info → 0 ≤ (change info).nLastTry ∧
      0 ≤ (change info).nLastSuccess ∧ (info.fInTried = true → (change info).nLastSuccess ≠ 0))
    :
    Tracked hashLow64 pending newAhead triedAhead (s.changeInfo nId change) := by
  have changed : Changed s (s.changeInfo nId change) nId change := ⟨rfl, rfl, rfl, rfl, rfl⟩
  refine { changed.indexed keeps tracked.toIndexed with
    newSlot := fun slot k here => changed.newSlot keeps (tracked.newSlot slot k here),
    triedSlot := fun slot k here => changed.triedSlot keeps flag (tracked.triedSlot slot k here),
    inPlace := fun k info' found => ?_,
    nNew := by rw [changed.count fun info => by rw [flag]]; exact tracked.nNew,
    nTried := by rw [changed.count flag]; exact tracked.nTried }
  · obtain ⟨info, there, rfl⟩ := changed.before found
    have place := tracked.inPlace k info there
    by_cases same : k = nId
    · subst same
      rw [if_pos rfl]
      obtain ⟨lastTry, lastSuccess, success⟩ := times info there
      refine ⟨(refs info).trans place.refs, place.few, fun isNew => place.new (flag info ▸ isNew),
        fun isTried => ?_, ⟨lastTry, lastSuccess⟩⟩
      have isTried := (flag info).symm.trans isTried
      obtain ⟨none, own, -⟩ := place.tried isTried
      refine ⟨none, ?_, success isTried⟩
      show s.vvTried ((change info).triedSlot hashLow64 s.nKey) = some k
      rw [CAddrInfo.triedSlot_congr (keeps.service info), own]
    · rw [if_neg same]
      exact place.keep rfl rfl (fun _ => id) id

/-- An entry leaves a slot of the "new" table and may be without one then. -/
theorem leaveNew {slot : NewSlot} (here : s.vvNew slot = some nId) :
    Tracked hashLow64 (insert nId pending) newAhead triedAhead (s.leaveNew slot nId) := by
  have changed : Changed s (s.leaveNew slot nId) nId
      (fun info => { info with nRefCount := info.nRefCount - 1 }) := ⟨rfl, rfl, rfl, rfl, rfl⟩
  have keeps : KeepsLinks fun info => { info with nRefCount := info.nRefCount - 1 } :=
    ⟨fun _ => rfl, fun _ => rfl⟩
  refine { changed.indexed keeps tracked.toIndexed with
    newSlot := fun slot' k there =>
      changed.newSlot keeps (tracked.newSlot slot' k (of_update_none there).2),
    triedSlot := fun slot' k there =>
      changed.triedSlot keeps (fun _ => rfl) (tracked.triedSlot slot' k there),
    inPlace := fun k info' found => ?_,
    nNew := by rw [changed.count fun _ => rfl]; exact tracked.nNew,
    nTried := by rw [changed.count fun _ => rfl]; exact tracked.nTried }
  · obtain ⟨info, there, rfl⟩ := changed.before found
    have place := tracked.inPlace k info there
    by_cases same : k = nId
    · subst same
      have count := held_leave nodup_newSlots (mem_newSlots slot) here
      rw [if_pos rfl]
      refine ⟨?_, ?_, fun _ waits => absurd (Set.mem_insert _ _) waits, fun isTried => ?_,
        place.times⟩
      · show info.nRefCount - 1 = (held newSlots (Function.update s.vvNew slot none) k : Nat)
        rw [place.refs, ← count]
        omega
      · show held newSlots (Function.update s.vvNew slot none) k ≤ _
        have few := place.few
        omega
      · have none := (place.tried isTried).1
        omega
    · have count : held newSlots (Function.update s.vvNew slot none) k =
          held newSlots s.vvNew k :=
        held_other nodup_newSlots (mem_newSlots slot)
          (by rw [here]; exact fun equal => same (Option.some.inj equal).symm) (by simp)
      rw [if_neg same]
      exact place.keep rfl count (fun _ => id) (Set.mem_insert_of_mem _)

end

theorem enterNew (tracked : Tracked hashLow64 (insert nId pending) newAhead triedAhead s)
    {slot : NewSlot} (found : s.mapInfo.lookup nId = some info) (isNew : info.fInTried = false)
    (free : s.vvNew slot = none) (own : slot = info.newSlotIn hashLow64 s.nKey slot.1)
    (room : held newSlots s.vvNew nId < ADDRMAN_NEW_BUCKETS_PER_ADDRESS) :
    Tracked hashLow64 pending newAhead triedAhead (s.enterNew slot nId) := by
  have changed : Changed s (s.enterNew slot nId) nId
      (fun info => { info with nRefCount := info.nRefCount + 1 }) := ⟨rfl, rfl, rfl, rfl, rfl⟩
  have keeps : KeepsLinks fun info => { info with nRefCount := info.nRefCount + 1 } :=
    ⟨fun _ => rfl, fun _ => rfl⟩
  refine { changed.indexed keeps tracked.toIndexed with
    newSlot := fun slot' k there => ?_,
    triedSlot := fun slot' k there =>
      changed.triedSlot keeps (fun _ => rfl) (tracked.triedSlot slot' k there),
    inPlace := fun k info' found' => ?_,
    nNew := by rw [changed.count fun _ => rfl]; exact tracked.nNew,
    nTried := by rw [changed.count fun _ => rfl]; exact tracked.nTried }
  · apply changed.newSlot keeps
    rcases of_update_some there with ⟨rfl, rfl⟩ | ⟨-, there⟩
    · exact ⟨info, found, own⟩
    · exact tracked.newSlot slot' k there
  obtain ⟨before, there, rfl⟩ := changed.before found'
  have place := tracked.inPlace k before there
  by_cases same : k = nId
  · subst same
    obtain rfl := Option.some.inj (there.symm.trans found)
    have count := held_enter (a := k) nodup_newSlots (mem_newSlots slot) free
    rw [if_pos rfl]
    refine ⟨?_, ?_, fun _ _ => ?_, fun isTried => ?_, place.times⟩
    · show before.nRefCount + 1 =
        (held newSlots (Function.update s.vvNew slot (some k)) k : Nat)
      rw [place.refs, count]
      omega
    · show held newSlots (Function.update s.vvNew slot (some k)) k ≤ _
      omega
    · show 1 ≤ held newSlots (Function.update s.vvNew slot (some k)) k
      omega
    · exact absurd (isTried.symm.trans isNew) (by simp)
  · have count : held newSlots (Function.update s.vvNew slot (some nId)) k =
        held newSlots s.vvNew k :=
      held_other nodup_newSlots (mem_newSlots slot) (by rw [free]; simp)
        fun equal => same (Option.some.inj equal).symm
    rw [if_neg same]
    exact place.keep rfl count (fun _ => id) fun member =>
      (Set.mem_insert_iff.mp member).resolve_left same

/-- An entry leaves its slot of the "tried" table and is without a slot then. -/
theorem leaveTried (tracked : Tracked hashLow64 pending newAhead triedAhead s) {slot : TriedSlot}
    (here : s.vvTried slot = some nId) :
    Tracked hashLow64 (insert nId pending) (newAhead - 1) triedAhead (s.leaveTried slot nId) := by
  have changed : Changed s (s.leaveTried slot nId) nId
      (fun info => { info with fInTried := false }) := ⟨rfl, rfl, rfl, rfl, rfl⟩
  have keeps : KeepsLinks fun info => { info with fInTried := false } :=
    ⟨fun _ => rfl, fun _ => rfl⟩
  obtain ⟨info, found, isTried, own⟩ := tracked.triedSlot slot nId here
  refine { changed.indexed keeps tracked.toIndexed with
    newSlot := fun slot' k there => changed.newSlot keeps (tracked.newSlot slot' k there),
    triedSlot := fun slot' k there => ?_, inPlace := fun k info' found' => ?_, nNew := ?_,
    nTried := ?_ }
  · obtain ⟨other, stood⟩ := of_update_none there
    obtain ⟨info', found', isTried', own'⟩ := tracked.triedSlot slot' k stood
    have apart : k ≠ nId := by
      rintro rfl
      exact other (tracked.triedSlot_unique stood here)
    exact ⟨info', by rw [changed.lookup_other apart, found'], isTried', own'⟩
  · obtain ⟨before, there, rfl⟩ := changed.before found'
    have place := tracked.inPlace k before there
    by_cases same : k = nId
    · subst same
      rw [if_pos rfl]
      exact ⟨place.refs, place.few, fun _ waits => absurd (Set.mem_insert _ _) waits, nofun,
        place.times⟩
    rw [if_neg same]
    refine place.keep rfl rfl (fun slot' there => ?_) (Set.mem_insert_of_mem _)
    show Function.update s.vvTried slot none slot' = some k
    rw [Function.update_of_ne, there]
    rintro rfl
    rw [here] at there
    exact same (Option.some.inj there).symm
  · have counts := changed.count_flip found (p := fun info => info.fInTried) isTried rfl
    show s.nNew = _ + (newAhead - 1)
    rw [tracked.nNew, counts.2]
    omega
  · have counts := changed.count_flip found (p := fun info => info.fInTried) isTried rfl
    show s.nTried - 1 = _ + triedAhead
    rw [tracked.nTried, counts.1]
    omega

/-- An entry without a slot enters its own in the "tried" table. -/
theorem enterTried (tracked : Tracked hashLow64 (insert nId pending) newAhead triedAhead s)
    (slot : TriedSlot) (found : s.mapInfo.lookup nId = some info) (isNew : info.fInTried = false)
    (nowhere : held newSlots s.vvNew nId = 0) (free : s.vvTried slot = none)
    (own : slot = info.triedSlot hashLow64 s.nKey) (success : info.nLastSuccess ≠ 0) :
    Tracked hashLow64 pending (newAhead + 1) triedAhead (s.enterTried slot nId) := by
  have changed : Changed s (s.enterTried slot nId) nId
      (fun info => { info with fInTried := true }) := ⟨rfl, rfl, rfl, rfl, rfl⟩
  have keeps : KeepsLinks fun info => { info with fInTried := true } :=
    ⟨fun _ => rfl, fun _ => rfl⟩
  refine { changed.indexed keeps tracked.toIndexed with
    newSlot := fun slot' k there => changed.newSlot keeps (tracked.newSlot slot' k there),
    triedSlot := fun slot' k there => ?_, inPlace := fun k info' found' => ?_, nNew := ?_,
    nTried := ?_ }
  · rcases of_update_some there with ⟨rfl, rfl⟩ | ⟨-, there⟩
    · exact ⟨_, changed.lookup_self found, rfl, own⟩
    obtain ⟨info', found', isTried', own'⟩ := tracked.triedSlot slot' k there
    have apart : k ≠ nId := by
      rintro rfl
      obtain rfl := Option.some.inj (found'.symm.trans found)
      exact absurd (isTried'.symm.trans isNew) (by simp)
    exact ⟨info', by rw [changed.lookup_other apart, found'], isTried', own'⟩
  · obtain ⟨before, there, rfl⟩ := changed.before found'
    have place := tracked.inPlace k before there
    by_cases same : k = nId
    · subst same
      obtain rfl := Option.some.inj (there.symm.trans found)
      rw [if_pos rfl]
      refine ⟨place.refs, place.few, nofun, fun _ => ⟨nowhere, ?_, success⟩, place.times⟩
      show Function.update s.vvTried slot (some k) (before.triedSlot hashLow64 s.nKey) = some k
      rw [own, Function.update_self]
    rw [if_neg same]
    refine place.keep rfl rfl (fun slot' there => ?_) fun member =>
      (Set.mem_insert_iff.mp member).resolve_left same
    show Function.update s.vvTried slot (some nId) slot' = some k
    rw [Function.update_of_ne, there]
    rintro rfl
    rw [free] at there
    cases there
  · have counts := changed.count_flip found (p := fun info => !info.fInTried)
      (by rw [isNew]; rfl) rfl
    show s.nNew = _ + (newAhead + 1)
    rw [tracked.nNew, counts.1]
    omega
  · have counts := changed.count_flip found (p := fun info => !info.fInTried)
      (by rw [isNew]; rfl) rfl
    simp only [Bool.not_not] at counts
    show s.nTried + 1 = _ + triedAhead
    rw [tracked.nTried, counts.2]
    omega

end Tracked

/-! ## The vector -/

/-- Only positions differ: the entries of `s'` are those of `s` but for the places in the vector. -/
structure Moved (s s' : CAddrMan) : Prop where
  entries : ∀ k, (s'.mapInfo.lookup k).map CAddrInfo.unplaced =
    (s.mapInfo.lookup k).map CAddrInfo.unplaced
  counts : ∀ p : CAddrInfo → Bool, (∀ info i, p { info with nRandomPos := i } = p info) →
    s'.mapInfo.count p = s.mapInfo.count p
  rest : s' = { s with mapInfo := s'.mapInfo, vRandom := s'.vRandom }

namespace Moved

theorem refl (s : CAddrMan) : Moved s s := ⟨fun _ => rfl, fun _ _ => rfl, rfl⟩

theorem before (moved : Moved s s') {k : Nat} {info' : CAddrInfo}
    (found : s'.mapInfo.lookup k = some info') :
    ∃ info, s.mapInfo.lookup k = some info ∧ info'.unplaced = info.unplaced := by
  have same := moved.entries k
  rw [found, Option.map_some, eq_comm, Option.map_eq_some_iff] at same
  obtain ⟨info, there, equal⟩ := same
  exact ⟨info, there, equal.symm⟩

theorem after (moved : Moved s s') {k : Nat} (found : s.mapInfo.lookup k = some info) :
    ∃ info', s'.mapInfo.lookup k = some info' ∧ info'.unplaced = info.unplaced := by
  have same := moved.entries k
  rw [found, Option.map_some, Option.map_eq_some_iff] at same
  exact same

end Moved

/-- What does not look at the position is the same for entries that differ in nothing else. -/
theorem eq_of_unplaced {β : Type*} {info' : CAddrInfo} (same : info'.unplaced = info.unplaced)
    (f : CAddrInfo → β) (ignores : ∀ info, f info.unplaced = f info) : f info' = f info := by
  rw [← ignores info', same, ignores]

theorem service_of_unplaced {info' : CAddrInfo} (same : info'.unplaced = info.unplaced) :
    info'.service = info.service :=
  eq_of_unplaced same (fun info => info.service) fun _ => rfl

namespace Tracked

/-- Entries that move in the vector stay tracked. -/
theorem moved (tracked : Tracked hashLow64 pending newAhead triedAhead s) (moved : Moved s s')
    (placed : Placed s'.placeOf s'.vRandom) :
    Tracked hashLow64 pending newAhead triedAhead s' := by
  have key : s'.nKey = s.nKey := by rw [moved.rest]
  have vvNew : s'.vvNew = s.vvNew := by rw [moved.rest]
  have vvTried : s'.vvTried = s.vvTried := by rw [moved.rest]
  refine ⟨⟨fun k info' found => ?_, ?_, placed⟩, fun slot k here => ?_, fun slot k here => ?_,
    fun k info' found => ?_, ?_, ?_⟩
  · obtain ⟨info, there, -⟩ := moved.before found
    rw [moved.rest]
    exact tracked.fresh k info there
  · have index : s'.mapAddr = s.mapAddr := by rw [moved.rest]
    rw [index]
    apply tracked.inverse.congr
    intro k
    have same := congrArg (Option.map fun info : CAddrInfo => info.service.ip) (moved.entries k)
    rw [Option.map_map, Option.map_map] at same
    exact same
  · rw [vvNew] at here
    obtain ⟨info, found, own⟩ := tracked.newSlot slot k here
    obtain ⟨info', found', same⟩ := moved.after found
    exact ⟨info', found', by
      rw [key, CAddrInfo.newSlotIn_congr (service_of_unplaced same), ← own]⟩
  · rw [vvTried] at here
    obtain ⟨info, found, isTried, own⟩ := tracked.triedSlot slot k here
    obtain ⟨info', found', same⟩ := moved.after found
    have flag : info'.fInTried = info.fInTried :=
      eq_of_unplaced same (fun info => info.fInTried) fun _ => rfl
    exact ⟨info', found', by rw [flag, isTried], by
      rw [key, CAddrInfo.triedSlot_congr (service_of_unplaced same), ← own]⟩
  · obtain ⟨info, there, same⟩ := moved.before found
    have place := tracked.inPlace k info there
    have refs : info'.nRefCount = info.nRefCount :=
      eq_of_unplaced same (fun info => info.nRefCount) fun _ => rfl
    have flag : info'.fInTried = info.fInTried :=
      eq_of_unplaced same (fun info => info.fInTried) fun _ => rfl
    have lastTry : info'.nLastTry = info.nLastTry :=
      eq_of_unplaced same (fun info => info.nLastTry) fun _ => rfl
    have lastSuccess : info'.nLastSuccess = info.nLastSuccess :=
      eq_of_unplaced same (fun info => info.nLastSuccess) fun _ => rfl
    constructor
    · rw [refs, vvNew, place.refs]
    · rw [vvNew]
      exact place.few
    · rw [vvNew, flag]
      exact place.new
    · rw [vvNew, vvTried, flag, lastSuccess, key,
        CAddrInfo.triedSlot_congr (service_of_unplaced same)]
      exact place.tried
    · rw [lastTry, lastSuccess]
      exact place.times
  · have counter : s'.nNew = s.nNew := by rw [moved.rest]
    rw [counter, moved.counts _ fun _ _ => rfl, tracked.nNew]
  · have counter : s'.nTried = s.nTried := by rw [moved.rest]
    rw [counter, moved.counts _ fun _ _ => rfl, tracked.nTried]

/-- Two positions inside the vector can be swapped. -/
theorem swapRandom (tracked : Tracked hashLow64 pending newAhead triedAhead s) {p₁ p₂ k : Nat}
    (first : p₁ < s.vRandom.length) (second : s.vRandom[p₂]? = some k) :
    ∃ s', s.swapRandom p₁ p₂ = some s' ∧ Tracked hashLow64 pending newAhead triedAhead s' ∧
      Moved s s' ∧ s'.vRandom[p₁]? = some k ∧ s'.vRandom[p₂]? = s.vRandom[p₁]? ∧
        s'.vRandom.length = s.vRandom.length := by
  have below := (List.getElem?_eq_some_iff.mp second).1
  unfold CAddrMan.swapRandom
  by_cases same : p₁ = p₂
  · subst same
    exact ⟨s, if_pos rfl, tracked, Moved.refl s, second, rfl, rfl⟩
  obtain ⟨k₁, here⟩ : ∃ k₁, s.vRandom[p₁]? = some k₁ := ⟨_, List.getElem?_eq_getElem first⟩
  have entry : ∀ {k i : Nat}, s.vRandom[i]? = some k →
      ∃ info, s.mapInfo.lookup k = some info := by
    intro k i there
    obtain ⟨info, found, -⟩ := Option.map_eq_some_iff.mp (tracked.placed.at_place there)
    exact ⟨info, found⟩
  have inMap : (s.mapInfo.contains k₁ && s.mapInfo.contains k) = true := by
    rw [(contains_iff _ _).mpr (entry here),
      (contains_iff _ _).mpr (entry second)]
    rfl
  have lookup : ∀ j, ((s.mapInfo.modify k₁ fun info =>
      { info with nRandomPos := p₂ }).modify k fun info =>
        { info with nRandomPos := p₁ }).lookup j =
      if j = k then (s.mapInfo.lookup k).map fun info => { info with nRandomPos := (p₁ : Int) }
      else if j = k₁ then
        (s.mapInfo.lookup k₁).map fun info => { info with nRandomPos := (p₂ : Int) }
      else s.mapInfo.lookup j := by
    have apart : k ≠ k₁ := by
      rintro rfl
      exact same (tracked.placed.unique here second)
    intro j
    rw [lookup_modify, lookup_modify, lookup_modify, if_neg apart]
  rw [if_neg same, here, second]
  simp only [inMap, if_true]
  have moves : Moved s { s with
      mapInfo := (s.mapInfo.modify k₁ fun info => { info with nRandomPos := p₂ }).modify k
        fun info => { info with nRandomPos := p₁ }
      vRandom := (s.vRandom.set p₁ k).set p₂ k₁ } := by
    refine ⟨fun j => ?_, fun p ignores => ?_, rfl⟩
    · show Option.map _ (AList.lookup j (AssocMap.modify _ _ _)) = _
      rw [lookup]
      by_cases isSecond : j = k
      · rw [if_pos isSecond, isSecond, Option.map_map]
        rfl
      by_cases isFirst : j = k₁
      · rw [if_neg isSecond, if_pos isFirst, isFirst, Option.map_map]
        rfl
      · rw [if_neg isSecond, if_neg isFirst]
    · show (AssocMap.modify _ _ _).count p = _
      rw [count_modify_of_same fun info => ignores info _,
        count_modify_of_same fun info => ignores info _]
  refine ⟨_, rfl, tracked.moved moves ?_, moves, ?_, ?_, by simp⟩
  · apply tracked.placed.swap same here second
    intro j
    rw [placeOf, lookup]
    by_cases isSecond : j = k
    · obtain ⟨info, found⟩ := entry second
      rw [if_pos isSecond, if_pos isSecond, found]
      rfl
    by_cases isFirst : j = k₁
    · obtain ⟨info, found⟩ := entry here
      rw [if_neg isSecond, if_neg isSecond, if_pos isFirst, if_pos isFirst, found]
      rfl
    · rw [if_neg isSecond, if_neg isSecond, if_neg isFirst, if_neg isFirst]
      rfl
  · show ((s.vRandom.set p₁ k).set p₂ k₁)[p₁]? = some k
    rw [List.getElem?_set_ne (Ne.symm same), List.getElem?_set_self first]
  · show ((s.vRandom.set p₁ k).set p₂ k₁)[p₂]? = some k₁
    rw [List.getElem?_set_self (by rw [List.length_set]; exact below)]

end Tracked

/-- One entry is gone; the others are as they were, but for the places in the vector. -/
structure Removed (s s' : CAddrMan) (nId : Nat) : Prop where
  gone : s'.mapInfo.lookup nId = none
  others : ∀ k, k ≠ nId → (s'.mapInfo.lookup k).map CAddrInfo.unplaced =
    (s.mapInfo.lookup k).map CAddrInfo.unplaced
  nKey : s'.nKey = s.nKey
  vvNew : s'.vvNew = s.vvNew
  vvTried : s'.vvTried = s.vvTried

namespace Tracked

/-- An entry that stands in no table can be deleted. -/
theorem delete (tracked : Tracked hashLow64 (insert nId pending) newAhead triedAhead s)
    (found : s.mapInfo.lookup nId = some info) (isNew : info.fInTried = false)
    (nowhere : held newSlots s.vvNew nId = 0) :
    ∃ s', s.delete nId = some s' ∧ Tracked hashLow64 pending newAhead triedAhead s' ∧
      Removed s s' nId := by
  obtain ⟨i, position, here⟩ := tracked.position found
  have below := (List.getElem?_eq_some_iff.mp here).1
  obtain ⟨k, last⟩ : ∃ k, s.vRandom[s.vRandom.length - 1]? = some k :=
    ⟨_, List.getElem?_eq_getElem (by omega)⟩
  obtain ⟨s₁, swapped, tracked₁, moved, -, behind, length⟩ := tracked.swapRandom below last
  obtain ⟨info₁, found₁, same⟩ := moved.after found
  have isNew₁ : info₁.fInTried = false :=
    (eq_of_unplaced same (fun info => info.fInTried) fun _ => rfl).trans isNew
  have vvNew : s₁.vvNew = s.vvNew := by rw [moved.rest]
  have vvTried : s₁.vvTried = s.vvTried := by rw [moved.rest]
  have nKey : s₁.nKey = s.nKey := by rw [moved.rest]
  have nowhere₁ : ∀ slot, s₁.vvNew slot ≠ some nId := by
    rw [vvNew]
    exact held_eq_zero_iff.mp nowhere
  have notTried : ∀ slot, s₁.vvTried slot ≠ some nId := by
    intro slot there
    obtain ⟨info', found', isTried, -⟩ := tracked₁.triedSlot slot nId there
    rw [found₁] at found'
    rw [← Option.some.inj found', isNew₁] at isTried
    cases isTried
  have lookup : ∀ j, (s₁.mapInfo.erase nId).lookup j =
      if j = nId then none else s₁.mapInfo.lookup j := fun j =>
    lookup_erase_eq s₁.mapInfo nId j
  have kept : ∀ {j : Nat} {info : CAddrInfo}, (s₁.mapInfo.erase nId).lookup j = some info →
      j ≠ nId ∧ s₁.mapInfo.lookup j = some info := by
    intro j info there
    rw [lookup] at there
    by_cases equal : j = nId
    · rw [if_pos equal] at there
      cases there
    · rw [if_neg equal] at there
      exact ⟨equal, there⟩
  refine ⟨{ s₁ with
      vRandom := s₁.vRandom.dropLast
      mapAddr := s₁.mapAddr.erase info.service.ip
      mapInfo := s₁.mapInfo.erase nId
      nNew := s₁.nNew - 1 }, ?_, ?_, ?_⟩
  · have refs := (tracked.inPlace nId info found).refs
    have some_entry : s.vRandom ≠ [] := by
      intro empty
      rw [empty] at below
      exact Nat.not_lt_zero i below
    unfold CAddrMan.delete
    rw [found]
    simp only [isNew, position, Int.toNat_natCast, swapped, Option.map_some]
    rw [refs, nowhere]
    simp [some_entry]
  · refine ⟨⟨fun j info' there => ?_, ?_, ?_⟩, fun slot j there => ?_, fun slot j there => ?_,
      fun j info' there => ?_, ?_, ?_⟩
    · exact tracked₁.fresh j info' (kept there).2
    · apply tracked₁.inverse.erase (k := nId)
        (show s₁.addrOf nId = some info.service.ip by
          rw [addrOf, found₁, ← service_of_unplaced same]
          rfl)
      · intro j
        rw [addrOf, lookup, apply_ite (Option.map _)]
        rfl
      · exact fun addr => lookup_erase_eq s₁.mapAddr info.service.ip addr
    · apply tracked₁.placed.pop (k := nId)
      · rw [length, behind, here]
      · intro j
        rw [placeOf, lookup, apply_ite (Option.map _)]
        rfl
    · obtain ⟨info', found', own⟩ := tracked₁.newSlot slot j there
      have apart : j ≠ nId := by
        rintro rfl
        exact nowhere₁ slot there
      exact ⟨info', by rw [lookup, if_neg apart, found'], own⟩
    · obtain ⟨info', found', isTried, own⟩ := tracked₁.triedSlot slot j there
      have apart : j ≠ nId := by
        rintro rfl
        exact notTried slot there
      exact ⟨info', by rw [lookup, if_neg apart, found'], isTried, own⟩
    · obtain ⟨apart, there⟩ := kept there
      exact (tracked₁.inPlace j info' there).keep rfl rfl (fun _ => id) fun member =>
        (Set.mem_insert_iff.mp member).resolve_left apart
    · have count := count_erase found₁ fun info => !info.fInTried
      rw [isNew₁] at count
      simp only [Bool.not_false, if_true] at count
      show s₁.nNew - 1 = (AssocMap.count (s₁.mapInfo.erase nId) _ : Nat) + newAhead
      rw [tracked₁.nNew]
      omega
    · have count := count_erase found₁ fun info => info.fInTried
      rw [isNew₁] at count
      simp only [Bool.false_eq_true, if_false, Nat.add_zero] at count
      rw [tracked₁.nTried, count]
  · refine ⟨?_, fun j apart => ?_, nKey, vvNew, vvTried⟩
    · exact (lookup nId).trans (if_pos rfl)
    · rw [← moved.entries j]
      rw [lookup, if_neg apart]

end Tracked

/-- What emptying a slot of the "new" table leaves as it was. -/
structure Cleared (s s' : CAddrMan) (slot : NewSlot) : Prop where
  others : ∀ k, s.vvNew slot ≠ some k → (s'.mapInfo.lookup k).map CAddrInfo.unplaced =
    (s.mapInfo.lookup k).map CAddrInfo.unplaced
  nKey : s'.nKey = s.nKey
  vvNew : s'.vvNew = Function.update s.vvNew slot none
  vvTried : s'.vvTried = s.vvTried

namespace Tracked

/-- A slot of the "new" table can be emptied. -/
theorem clearNew (tracked : Tracked hashLow64 pending newAhead triedAhead s) (slot : NewSlot) :
    ∃ s', s.clearNew slot = some s' ∧ Tracked hashLow64 pending newAhead triedAhead s' ∧
      Cleared s s' slot := by
  unfold CAddrMan.clearNew
  cases here : s.vvNew slot with
  | none =>
    refine ⟨s, rfl, tracked, fun _ _ => rfl, rfl, ?_, rfl⟩
    rw [← here, Function.update_eq_self]
  | some k =>
    obtain ⟨info, found, -⟩ := tracked.newSlot slot k here
    have place := tracked.inPlace k info found
    have left := tracked.leaveNew here
    have count := held_leave nodup_newSlots (mem_newSlots slot) here
    have isNew : info.fInTried = false := by
      cases flag : info.fInTried with
      | false => rfl
      | true =>
        have nowhere := (place.tried flag).1
        omega
    have changed : (s.leaveNew slot k).mapInfo.lookup k =
        some { info with nRefCount := info.nRefCount - 1 } := by
      show (s.mapInfo.modify k _).lookup k = _
      rw [lookup_modify, if_pos rfl, found]
      rfl
    have others : ∀ j, j ≠ k →
        (s.leaveNew slot k).mapInfo.lookup j = s.mapInfo.lookup j := by
      intro j apart
      show (s.mapInfo.modify k _).lookup j = _
      rw [lookup_modify, if_neg apart]
    have apart : ∀ j, some k ≠ some j → j ≠ k := by
      rintro j other rfl
      exact other rfl
    simp only [found]
    rw [if_pos (by rw [place.refs]; omega)]
    by_cases last : info.nRefCount - 1 = 0
    · rw [if_pos last]
      have refs := place.refs
      obtain ⟨s', deleted, tracked', removed⟩ := left.delete changed isNew (by
        show held newSlots (Function.update s.vvNew slot none) k = 0
        omega)
      refine ⟨s', deleted, tracked', fun j other => ?_, removed.nKey, removed.vvNew,
        removed.vvTried⟩
      rw [here] at other
      rw [removed.others j (apart j other), others j (apart j other)]
    · rw [if_neg last]
      have refs := place.refs
      refine ⟨_, rfl, left.settle fun _ _ _ => ?_, fun j other => ?_, rfl, rfl, rfl⟩
      · show 1 ≤ held newSlots (Function.update s.vvNew slot none) k
        omega
      · rw [here] at other
        rw [others j (apart j other)]

/-- A new entry waits for a place. -/
theorem enlist (tracked : Tracked hashLow64 pending newAhead triedAhead s)
    (room : s.nIdCount + 1 < 2 ^ 32) (info : CAddrInfo)
    (newAddress : s.mapAddr.lookup info.service.ip = none) (isNew : info.fInTried = false)
    (refs : info.nRefCount = 0) (times : 0 ≤ info.nLastTry ∧ 0 ≤ info.nLastSuccess) :
    Tracked hashLow64 (insert s.nIdCount pending) (newAhead - 1) triedAhead (s.enlist info) := by
  have absent : s.mapInfo.lookup s.nIdCount = none := by
    cases found : s.mapInfo.lookup s.nIdCount with
    | none => rfl
    | some info => exact absurd (tracked.fresh _ info found) (Nat.lt_irrefl _)
  have lookup : ∀ k, (s.enlist info).mapInfo.lookup k =
      if k = s.nIdCount then some { info with nRandomPos := s.vRandom.length }
      else s.mapInfo.lookup k := fun k =>
    lookup_insert_eq s.mapInfo s.nIdCount k _
  have older : ∀ {k : Nat} {info' : CAddrInfo}, s.mapInfo.lookup k = some info' →
      (s.enlist info).mapInfo.lookup k = some info' := by
    intro k info' found
    rw [lookup, if_neg (Nat.ne_of_lt (tracked.fresh k info' found)), found]
  have nowhere : held newSlots s.vvNew s.nIdCount = 0 := by
    rw [held_eq_zero_iff]
    intro slot here
    obtain ⟨info', found, -⟩ := tracked.newSlot slot _ here
    rw [absent] at found
    cases found
  refine ⟨⟨fun k info' found => ?_, ?_, ?_⟩, fun slot k here => ?_, fun slot k here => ?_,
    fun k info' found => ?_, ?_, ?_⟩
  · show k < nextId s.nIdCount
    rw [nextId_of_lt room]
    rw [lookup] at found
    by_cases same : k = s.nIdCount
    · omega
    · rw [if_neg same] at found
      have below := tracked.fresh k info' found
      omega
  · apply tracked.inverse.insert (k := s.nIdCount) (a := info.service.ip)
    · rw [addrOf, absent]
      rfl
    · exact newAddress
    · intro k
      rw [addrOf, lookup, apply_ite (Option.map _)]
      rfl
    · exact fun addr => lookup_insert_eq s.mapAddr info.service.ip addr s.nIdCount
  · apply tracked.placed.push (k := s.nIdCount)
    · rw [placeOf, absent]
      rfl
    · intro k
      rw [placeOf, lookup, apply_ite (Option.map _)]
      rfl
  · obtain ⟨info', found, own⟩ := tracked.newSlot slot k here
    exact ⟨info', older found, own⟩
  · obtain ⟨info', found, isTried, own⟩ := tracked.triedSlot slot k here
    exact ⟨info', older found, isTried, own⟩
  · rw [lookup] at found
    by_cases same : k = s.nIdCount
    · subst same
      rw [if_pos rfl] at found
      obtain rfl := Option.some.inj found
      refine ⟨?_, ?_, fun _ waits => absurd (Set.mem_insert _ _) waits, fun isTried => ?_, times⟩
      · show info.nRefCount = (held newSlots s.vvNew s.nIdCount : Nat)
        rw [refs, nowhere]
        rfl
      · show held newSlots s.vvNew s.nIdCount ≤ _
        rw [nowhere]
        exact Nat.zero_le _
      · exact absurd (isTried.symm.trans isNew) (by simp)
    · rw [if_neg same] at found
      exact (tracked.inPlace k info' found).keep rfl rfl (fun _ => id) (Set.mem_insert_of_mem _)
  · show s.nNew = (AssocMap.count (s.mapInfo.insert s.nIdCount _) _ : Nat) + (newAhead - 1)
    rw [count_insert absent, tracked.nNew]
    simp only [isNew, Bool.not_false, if_true]
    omega
  · show s.nTried = (AssocMap.count (s.mapInfo.insert s.nIdCount _) _ : Nat) + triedAhead
    rw [count_insert absent, tracked.nTried]
    simp only [isNew, Bool.false_eq_true, if_false]
    omega

end Tracked

end CAddrMan

end Esbcoin
