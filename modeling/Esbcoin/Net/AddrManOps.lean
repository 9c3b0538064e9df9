import Esbcoin.Net.AddrManSteps

namespace Esbcoin

open SlotTable CrossIndex AssocMap CAddrInfo

namespace CAddrMan

variable {hashLow64 : List UInt8 → UInt64} {pending : Set Nat} {newAhead triedAhead : Int}
  {s s' : CAddrMan} {nId : Nat} {info : CAddrInfo}

namespace Tracked

/-! ## Good_ -/

/-- An entry leaves the slots it may have in some buckets. -/
theorem leaveBuckets (info : CAddrInfo) (buckets : List (Fin ADDRMAN_NEW_BUCKET_COUNT))
    {now : CAddrInfo}
    (tracked : Tracked hashLow64 (insert nId pending) newAhead triedAhead s)
    (found : s.mapInfo.lookup nId = some now) :
    ∃ s', s.leaveBuckets hashLow64 info nId buckets = s' ∧
      Tracked hashLow64 (insert nId pending) newAhead triedAhead s' ∧
      s'.nKey = s.nKey ∧ s'.vvTried = s.vvTried ∧
      (∃ refs, s'.mapInfo.lookup nId = some { now with nRefCount := refs }) ∧
      (∀ bucket ∈ buckets, s'.vvNew (info.newSlotIn hashLow64 s.nKey bucket) ≠ some nId) ∧
      ∀ slot, s.vvNew slot ≠ some nId → s'.vvNew slot ≠ some nId := by
  induction buckets generalizing s now with
  | nil => exact ⟨s, rfl, tracked, rfl, rfl, ⟨now.nRefCount, found⟩, by simp, fun _ => id⟩
  | cons bucket buckets ih =>
    by_cases here : s.vvNew (info.newSlotIn hashLow64 s.nKey bucket) = some nId
    · have left := (tracked.leaveNew here).mono
        (Set.insert_subset (Set.mem_insert nId pending) (Set.Subset.refl _))
      have changed : (s.leaveNew (info.newSlotIn hashLow64 s.nKey bucket) nId).mapInfo.lookup nId =
          some { now with nRefCount := now.nRefCount - 1 } := by
        show (s.mapInfo.modify nId _).lookup nId = _
        rw [lookup_modify, if_pos rfl, found]
        rfl
      obtain ⟨s', result, tracked', nKey, vvTried, ⟨refs, found'⟩, free, keeps⟩ := ih left changed
      refine ⟨s', ?_, tracked', nKey, vvTried, ⟨refs, found'⟩, ?_, fun slot other => ?_⟩
      · rw [← result]
        simp only [CAddrMan.leaveBuckets, List.foldl_cons, if_pos here]
      · rintro other (_ | ⟨_, member⟩)
        · exact keeps _ fun there => (of_update_none there).1 rfl
        · exact free other member
      · exact keeps slot fun there => other (of_update_none there).2
    · obtain ⟨s', result, tracked', nKey, vvTried, entry, free, keeps⟩ := ih tracked found
      refine ⟨s', ?_, tracked', nKey, vvTried, entry, ?_, keeps⟩
      · rw [← result]
        simp only [CAddrMan.leaveBuckets, List.foldl_cons, if_neg here]
      · rintro other (_ | ⟨_, member⟩)
        · exact keeps _ here
        · exact free other member

/-- A slot of the "tried" table is made free; what stood there goes back to the "new" table. -/
theorem evictTried (tracked : Tracked hashLow64 pending newAhead triedAhead s) (slot : TriedSlot) :
    ∃ s', s.evictTried hashLow64 slot = some s' ∧
      Tracked hashLow64 pending newAhead triedAhead s' ∧
      s'.nKey = s.nKey ∧ s'.vvTried = Function.update s.vvTried slot none ∧
      ∀ k, (∀ slot, s.vvNew slot ≠ some k) → s.vvTried slot ≠ some k →
        (s'.mapInfo.lookup k).map unplaced = (s.mapInfo.lookup k).map unplaced ∧
        ∀ slot, s'.vvNew slot ≠ some k := by
  unfold CAddrMan.evictTried
  cases here : s.vvTried slot with
  | none =>
    refine ⟨s, rfl, tracked, rfl, ?_, fun k nowhere _ => ⟨rfl, nowhere⟩⟩
    rw [← here, Function.update_eq_self]
  | some evict =>
    obtain ⟨infoOld, found, isTried, -⟩ := tracked.triedSlot slot evict here
    have left := tracked.leaveTried here
    have found₁ : (s.leaveTried slot evict).mapInfo.lookup evict =
        some { infoOld with fInTried := false } := by
      show (s.mapInfo.modify evict _).lookup evict = _
      rw [lookup_modify, if_pos rfl, found]
      rfl
    have nowhere : ∀ slot, s.vvNew slot ≠ some evict :=
      held_eq_zero_iff.mp ((tracked.inPlace evict infoOld found).tried isTried).1
    simp only [found]
    generalize hslot : infoOld.newSlotIn hashLow64 (s.leaveTried slot evict).nKey
      (infoOld.getNewBucket hashLow64 (s.leaveTried slot evict).nKey infoOld.source) = uslot
    obtain ⟨s₂, cleared, tracked₂, frame⟩ := left.clearNew uslot
    have vvNew₂ : s₂.vvNew = Function.update s.vvNew uslot none := frame.vvNew
    obtain ⟨info₂, found₂, same⟩ : ∃ info₂, s₂.mapInfo.lookup evict = some info₂ ∧
        info₂.unplaced = { infoOld with fInTried := false }.unplaced := by
      have kept := frame.others evict (nowhere uslot)
      rw [found₁, Option.map_some, Option.map_eq_some_iff] at kept
      exact kept
    have nowhere₂ : ∀ slot, s₂.vvNew slot ≠ some evict := by
      intro slot there
      rw [vvNew₂] at there
      exact nowhere slot (of_update_none there).2
    have place₂ := tracked₂.inPlace evict info₂ found₂
    have refs₂ : info₂.nRefCount = 0 := by
      rw [place₂.refs, held_eq_zero_iff.mpr nowhere₂]
      rfl
    have free : s₂.vvNew uslot = none := by rw [vvNew₂, Function.update_self]
    have service : info₂.service = infoOld.service :=
      eq_of_unplaced same (fun info => info.service) fun _ => rfl
    have entered := tracked₂.enterNew found₂
      (eq_of_unplaced same (fun info => info.fInTried) fun _ => rfl) free
      (by
        rw [newSlotIn_congr service, frame.nKey, ← hslot]
        rfl)
      (by
        rw [held_eq_zero_iff.mpr nowhere₂]
        decide)
    have counted := entered.countNew 1
    rw [Int.sub_add_cancel] at counted
    have result : ({ s₂.changeInfo evict fun info => { info with nRefCount := 1 } with
          vvNew := Function.update s₂.vvNew uslot (some evict)
          nNew := s₂.nNew + 1 } : CAddrMan) =
        { s₂.enterNew uslot evict with nNew := (s₂.enterNew uslot evict).nNew + 1 } := by
      have entry := modify_congr (f := fun info => { info with nRefCount := 1 })
        (g := fun info => { info with nRefCount := info.nRefCount + 1 }) found₂ (by
          simp only [refs₂]
          rfl)
      simp only [CAddrMan.changeInfo, CAddrMan.enterNew, entry]
    simp only [cleared, if_pos free]
    refine ⟨_, rfl, result ▸ counted, frame.nKey, frame.vvTried, fun k hk apart => ?_⟩
    have other : k ≠ evict := by
      rintro rfl
      exact apart rfl
    constructor
    · show Option.map _ ((s₂.mapInfo.modify evict _).lookup k) = _
      rw [lookup_modify, if_neg other, frame.others k (hk uslot)]
      show Option.map _ ((s.mapInfo.modify evict _).lookup k) = _
      rw [lookup_modify, if_neg other]
    intro slot' there
    rcases of_update_some there with ⟨-, equal⟩ | ⟨-, there⟩
    · exact other equal.symm
    · rw [vvNew₂] at there
      exact hk slot' (of_update_none there).2

/-- An entry that is not in it yet moves to the "tried" table. -/
theorem makeTried (tracked : Tracked hashLow64 pending newAhead triedAhead s) (now : CAddrInfo)
    (found : s.mapInfo.lookup nId = some now) (service : now.service = info.service)
    (isNew : now.fInTried = false) (success : now.nLastSuccess ≠ 0) :
    ∃ s', s.makeTried hashLow64 info nId = some s' ∧
      Tracked hashLow64 pending newAhead triedAhead s' := by
  obtain ⟨s₁, left, tracked₁, nKey, vvTried, ⟨refs, found₁⟩, free, -⟩ :=
    leaveBuckets info (List.finRange ADDRMAN_NEW_BUCKET_COUNT)
      (tracked.mono (Set.subset_insert nId pending)) found
  have nowhere : ∀ slot, s₁.vvNew slot ≠ some nId := by
    intro slot there
    obtain ⟨info', found', own⟩ := tracked₁.newSlot slot nId there
    rw [found₁] at found'
    obtain rfl := Option.some.inj found'
    have service' : ({ now with nRefCount := refs } : CAddrInfo).service = info.service := service
    rw [newSlotIn_congr service', nKey] at own
    exact free slot.1 (List.mem_finRange _) (own ▸ there)
  have noRefs : refs = 0 := by
    have count := (tracked₁.inPlace nId _ found₁).refs
    rw [held_eq_zero_iff.mpr nowhere] at count
    exact count
  obtain ⟨s₃, evicted, tracked₃, nKey₃, vvTried₃, keeps⟩ :=
    (tracked₁.countNew (-1)).evictTried (info.triedSlot hashLow64 s₁.nKey)
  have notTried : s₁.vvTried (info.triedSlot hashLow64 s₁.nKey) ≠ some nId := by
    intro there
    obtain ⟨info', found', isTried, -⟩ := tracked₁.triedSlot _ nId there
    rw [found₁] at found'
    rw [← Option.some.inj found'] at isTried
    exact absurd (isTried.symm.trans isNew) (by simp)
  obtain ⟨entry, nowhere₃⟩ := keeps nId nowhere notTried
  obtain ⟨info₃, found₃, same⟩ : ∃ info₃, s₃.mapInfo.lookup nId = some info₃ ∧
      info₃.unplaced = { now with nRefCount := refs }.unplaced := by
    rw [found₁, Option.map_some, Option.map_eq_some_iff] at entry
    exact entry
  have free₃ : s₃.vvTried (info.triedSlot hashLow64 s₁.nKey) = none := by
    rw [vvTried₃, Function.update_self]
  have entered := tracked₃.enterTried _ found₃
    ((eq_of_unplaced same (fun info => info.fInTried) fun _ => rfl).trans isNew)
    (held_eq_zero_iff.mpr nowhere₃) free₃
    (by
      have service₃ : info₃.service = info.service :=
        (eq_of_unplaced same (fun info => info.service) fun _ => rfl).trans service
      rw [triedSlot_congr service₃, nKey₃])
    (by
      rw [eq_of_unplaced same (fun info => info.nLastSuccess) fun _ => rfl]
      exact success)
  rw [show newAhead + -1 + 1 = newAhead by omega] at entered
  refine ⟨_, ?_, entered⟩
  have evicted : ({ s₁ with nNew := s₁.nNew - 1 } : CAddrMan).evictTried hashLow64
      (info.triedSlot hashLow64 s₁.nKey) = some s₃ := evicted
  unfold CAddrMan.makeTried
  simp only [left, found₁, noRefs, evicted, free₃, ne_eq, not_true_eq_false, if_false, if_true]

theorem good (tracked : Tracked hashLow64 ∅ 0 0 s) (addr : CService) {nTime : Int64}
    (positive : 0 < nTime) (nRnd : Nat) :
    ∃ s', s.good hashLow64 addr nTime nRnd = some s' ∧ Tracked hashLow64 ∅ 0 0 s' := by
  unfold CAddrMan.good
  cases found : s.find addr.ip with
  | none => exact ⟨s, rfl, tracked⟩
  | some result =>
    obtain ⟨nId, info⟩ := result
    obtain ⟨entry, -⟩ := tracked.find_iff.mp found
    have nonneg : 0 ≤ nTime := Int64.le_of_lt positive
    have nonzero : nTime ≠ 0 := by
      rintro rfl
      exact Int64.lt_irrefl positive
    have changed := tracked.changeInfo nId
      (fun info => { info with nLastSuccess := nTime, nLastTry := nTime, nAttempts := 0 })
      ⟨fun _ => rfl, fun _ => rfl⟩ (fun _ => rfl) (fun _ => rfl)
      fun _ _ => ⟨nonneg, nonneg, fun _ => nonzero⟩
    simp only
    split
    · exact ⟨s, rfl, tracked⟩
    by_cases isTried : info.fInTried = true
    · rw [if_pos isTried]
      exact ⟨_, rfl, changed⟩
    rw [if_neg isTried]
    split
    · exact ⟨_, rfl, changed⟩
    refine changed.makeTried { info with
      nLastSuccess := nTime, nLastTry := nTime, nAttempts := 0 } ?_ rfl ?_ nonzero
    · show (s.mapInfo.modify nId _).lookup nId = _
      rw [lookup_modify, if_pos rfl, entry]
      rfl
    · simpa using isTried

/-! ## Add_ -/

/-- An entry that waits goes to the bucket of its source, unless it is full: then it goes away, or
stays where it stands. -/
theorem addToBucket (tracked : Tracked hashLow64 (insert nId ∅) 0 0 s) (info : CAddrInfo)
    (found : s.mapInfo.lookup nId = some info) (isNew : info.fInTried = false)
    (room : info.nRefCount < ADDRMAN_NEW_BUCKETS_PER_ADDRESS) (source : CNetAddr) (nLater : Int) :
    ∃ s', s.addToBucket hashLow64 nId source nLater = some s' ∧ Tracked hashLow64 ∅ 0 0 s' := by
  unfold CAddrMan.addToBucket
  simp only [found]
  generalize hslot : info.newSlotIn hashLow64 s.nKey
    (info.getNewBucket hashLow64 s.nKey source) = slot
  have own : slot = info.newSlotIn hashLow64 s.nKey slot.1 := by
    rw [← hslot]
    rfl
  have refs := (tracked.inPlace nId info found).refs
  cases here : s.vvNew slot with
  | none => exact ⟨_, rfl, tracked.enterNew found isNew here own (by omega)⟩
  | some existing =>
    simp only
    by_cases same : existing = nId
    · rw [if_pos same]
      subst same
      exact ⟨s, rfl, tracked.settle fun _ _ _ => held_pos (mem_newSlots slot) here⟩
    rw [if_neg same]
    obtain ⟨infoExisting, found', -⟩ := tracked.newSlot slot existing here
    simp only [found']
    have apart : s.vvNew slot ≠ some nId := by
      rw [here]
      exact fun equal => same (Option.some.inj equal)
    split
    · -- what stands in the slot makes room
      obtain ⟨s', cleared, tracked', frame⟩ := tracked.clearNew slot
      obtain ⟨info', found', unmoved⟩ : ∃ info', s'.mapInfo.lookup nId = some info' ∧
          info'.unplaced = info.unplaced := by
        have kept := frame.others nId apart
        rw [found, Option.map_some, Option.map_eq_some_iff] at kept
        exact kept
      have count : held newSlots s'.vvNew nId = held newSlots s.vvNew nId := by
        rw [frame.vvNew]
        exact held_other nodup_newSlots (mem_newSlots slot) apart (by simp)
      rw [cleared]
      refine ⟨_, rfl, tracked'.enterNew found' ?_ ?_ ?_ ?_⟩
      · exact (eq_of_unplaced unmoved (fun info => info.fInTried) fun _ => rfl).trans isNew
      · rw [frame.vvNew, Function.update_self]
      · rw [newSlotIn_congr (service_of_unplaced unmoved), frame.nKey]
        exact own
      · omega
    · split
      · rename_i _ noRefs
        obtain ⟨s', deleted, tracked', -⟩ := tracked.delete found isNew (by omega)
        exact ⟨s', deleted, tracked'⟩
      · rename_i _ someRefs
        refine ⟨s, rfl, tracked.settle fun _ _ _ => ?_⟩
        omega

section

variable (tracked : Tracked hashLow64 ∅ 0 0 s)
include tracked

theorem add (room : s.nIdCount + 1 < 2 ^ 32) (addr : CAddress) (source : CNetAddr)
    (nTimePenalty : Int) (draws : AddDraws) :
    ∃ result, s.add hashLow64 addr source nTimePenalty draws = some result ∧
      Tracked hashLow64 ∅ 0 0 result.2 := by
  unfold CAddrMan.add
  split
  · exact ⟨_, rfl, tracked⟩
  cases found : s.find addr.service.ip with
  | some known =>
    obtain ⟨nId, info⟩ := known
    obtain ⟨entry, -⟩ := tracked.find_iff.mp found
    have place := tracked.inPlace nId info entry
    have changed := tracked.changeInfo nId
      (CAddrInfo.refresh addr nTimePenalty draws.nNow) ⟨fun _ => rfl, fun _ => rfl⟩
      (fun _ => rfl) (fun _ => rfl) (by
        intro info' found'
        have place' := tracked.inPlace nId info' found'
        exact ⟨place'.times.1, place'.times.2, fun isTried => (place'.tried isTried).2.2⟩)
    simp only
    split
    · exact ⟨_, rfl, changed⟩
    rename_i moves
    have moves : CAddrInfo.stays addr draws.nRnd
        (CAddrInfo.refresh addr nTimePenalty draws.nNow info) = false := by simpa using moves
    simp only [CAddrInfo.stays, Bool.or_eq_false_iff] at moves
    obtain ⟨⟨⟨-, isNew⟩, notFull⟩, -⟩ := moves
    have notFull : info.nRefCount ≠ ADDRMAN_NEW_BUCKETS_PER_ADDRESS := by
      intro full
      rw [show (CAddrInfo.refresh addr nTimePenalty draws.nNow info).nRefCount =
        info.nRefCount from rfl, full] at notFull
      simp at notFull
    have refs := place.refs
    have few := place.few
    obtain ⟨s', result, tracked'⟩ := (changed.mono (Set.empty_subset _)).addToBucket
      (CAddrInfo.refresh addr nTimePenalty draws.nNow info) (by
        show (s.mapInfo.modify nId _).lookup nId = _
        rw [lookup_modify, if_pos rfl, entry]
        rfl) isNew (by
        show info.nRefCount < _
        omega) source draws.nLater
    rw [result]
    exact ⟨_, rfl, tracked'⟩
  | none =>
    have created := tracked.enlist room (CAddrInfo.init addr source)
      (tracked.absent_of_find found) rfl rfl ⟨Int64.le_refl 0, Int64.le_refl 0⟩
    have entry : (s.create addr source).mapInfo.lookup s.nIdCount =
        some { CAddrInfo.init addr source with nRandomPos := s.vRandom.length } :=
      AList.lookup_insert s.mapInfo
    have changed := created.changeInfo s.nIdCount
      (fun info =>
        { info with nTime := UInt32.ofInt (max 0 (info.nTime.toNat - nTimePenalty)) })
      ⟨fun _ => rfl, fun _ => rfl⟩ (fun _ => rfl) (fun _ => rfl) (by
        intro info' found'
        have place' := created.inPlace s.nIdCount info' found'
        exact ⟨place'.times.1, place'.times.2, fun isTried => (place'.tried isTried).2.2⟩)
    obtain ⟨s', result, tracked'⟩ := (changed.countNew 1).addToBucket
      { CAddrInfo.init addr source with
        nRandomPos := s.vRandom.length
        nTime := UInt32.ofInt (max 0 (addr.nTime.toNat - nTimePenalty)) } (by
        show ((s.create addr source).mapInfo.modify s.nIdCount _).lookup s.nIdCount = _
        rw [lookup_modify, if_pos rfl, entry]
        rfl) rfl (by
          show (0 : Int) < _
          decide) source draws.nLater
    refine ⟨(true, s'), ?_, tracked'⟩
    have result : CAddrMan.addToBucket hashLow64 { (s.create addr source).changeInfo s.nIdCount
        (fun info =>
          { info with nTime := UInt32.ofInt (max 0 (info.nTime.toNat - nTimePenalty)) }) with
        nNew := s.nNew + 1 } s.nIdCount source draws.nLater = some s' := result
    exact (congrArg (Option.map fun s => (true, s)) result).trans rfl

/-! ## The other operations -/

theorem attempt (addr : CService) {nTime : Int64} (notNegative : 0 ≤ nTime) :
    Tracked hashLow64 ∅ 0 0 (s.attempt addr nTime) := by
  unfold CAddrMan.attempt
  split
  · exact tracked
  split
  · exact tracked
  refine tracked.changeInfo _ _ ⟨fun _ => rfl, fun _ => rfl⟩ (fun _ => rfl) (fun _ => rfl) ?_
  intro info found
  have place := tracked.inPlace _ info found
  exact ⟨notNegative, place.times.2, fun isTried => (place.tried isTried).2.2⟩

theorem connected (addr : CService) (nTime : Int64) :
    Tracked hashLow64 ∅ 0 0 (s.connected addr nTime) := by
  unfold CAddrMan.connected
  split
  · exact tracked
  split
  · exact tracked
  refine tracked.changeInfo _ _ ⟨fun info => ?_, fun info => ?_⟩ (fun info => ?_)
    (fun info => ?_) ?_
  · split <;> rfl
  · split <;> rfl
  · split <;> rfl
  · split <;> rfl
  intro info found
  have place := tracked.inPlace _ info found
  have kept : ∀ P : CAddrInfo → Prop, P info → P { info with
      nTime := UInt32.ofInt nTime.toInt } → P (if nTime.toInt - info.nTime.toNat > 20 * 60
        then { info with nTime := UInt32.ofInt nTime.toInt } else info) := by
    intro P old new
    split
    · exact new
    · exact old
  exact ⟨kept (fun info => 0 ≤ info.nLastTry) place.times.1 place.times.1,
    kept (fun info => 0 ≤ info.nLastSuccess) place.times.2 place.times.2, fun isTried =>
      kept (fun info => info.nLastSuccess ≠ 0) (place.tried isTried).2.2
        (place.tried isTried).2.2⟩

end

theorem selectFrom {buckets : Nat} [NeZero buckets]
    {table : Fin buckets × Fin ADDRMAN_BUCKET_SIZE → Option Nat}
    (known : ∀ slot nId, table slot = some nId → ∃ info, s.mapInfo.lookup nId = some info)
    (draws : List SelectDraw) : (s.selectFrom table draws).isSome := by
  induction draws with
  | nil => rfl
  | cons draw draws ih =>
    rw [CAddrMan.selectFrom]
    cases here : table (Fin.ofNat _ draw.nBucket, Fin.ofNat _ draw.nBucketPos) with
    | none => exact ih
    | some nId =>
      obtain ⟨info, found⟩ := known _ nId here
      simp only [found]
      split
      · rfl
      · exact ih

theorem select (tracked : Tracked hashLow64 ∅ 0 0 s) (fTried : Bool) (draws : List SelectDraw) :
    (s.select fTried draws).isSome := by
  unfold CAddrMan.select
  split
  · rfl
  split
  · refine selectFrom (fun slot nId here => ?_) draws
    obtain ⟨info, found, -⟩ := tracked.triedSlot slot nId here
    exact ⟨info, found⟩
  · refine selectFrom (fun slot nId here => ?_) draws
    obtain ⟨info, found, -⟩ := tracked.newSlot slot nId here
    exact ⟨info, found⟩

theorem getAddrFrom (nNodes : Nat) (nRnd : Nat → Nat) (nNow : Nat → Int) (left n : Nat)
    (tracked : Tracked hashLow64 ∅ 0 0 s) (length : n + left = s.vRandom.length)
    (vAddr : List CAddress) :
    ∃ result, CAddrMan.getAddrFrom nNodes nRnd nNow left n s vAddr = some result ∧
      Tracked hashLow64 ∅ 0 0 result.2 := by
  induction left generalizing n s vAddr with
  | zero => exact ⟨_, rfl, tracked⟩
  | succ left ih =>
    rw [CAddrMan.getAddrFrom]
    split
    · exact ⟨_, rfl, tracked⟩
    have below := Nat.mod_lt (nRnd n) (show 0 < s.vRandom.length - n by omega)
    obtain ⟨k, there⟩ :
        ∃ k, s.vRandom[nRnd n % (s.vRandom.length - n) + n]? = some k :=
      ⟨_, List.getElem?_eq_getElem (by omega)⟩
    obtain ⟨s', swapped, tracked', -, here, -, length'⟩ :=
      tracked.swapRandom (show n < s.vRandom.length by omega) there
    obtain ⟨ai, found, -⟩ := Option.map_eq_some_iff.mp (tracked'.placed.at_place here)
    simp only [swapped, here, Option.bind_some, found]
    exact ih (n + 1) tracked' (by omega) _

theorem getAddr (tracked : Tracked hashLow64 ∅ 0 0 s) (nRnd : Nat → Nat) (nNow : Nat → Int) :
    ∃ result, s.getAddr nRnd nNow = some result ∧ Tracked hashLow64 ∅ 0 0 result.2 :=
  tracked.getAddrFrom _ nRnd nNow s.vRandom.length 0 (Nat.zero_add _) []

end Tracked

end CAddrMan

end Esbcoin
