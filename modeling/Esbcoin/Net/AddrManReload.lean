import Esbcoin.Net.AddrManDisk
import Esbcoin.Net.AddrManSteps

/-!
# Reading the address manager back

`CAddrMan::Unserialize` in a new address manager gives, of what `CAddrMan::Serialize` wrote in a
tracked state, a tracked state with the same addresses. The numbers of the entries are given anew:
first the "new" entries in the order of their old numbers, then the "tried" ones.
-/

namespace Esbcoin

open Bytes SlotTable CrossIndex CAddrInfo AssocMap List

/-! ## Numbers of fixed width -/

theorem readSigned_int32 (n : Int32) (rest : List UInt8) :
    readSigned 4 (signedBytes 4 n.toInt ++ rest) = some (n.toInt, rest) := by
  apply (reads_signed 4 _ _ _).mpr
  have low := n.le_toInt
  have high := n.toInt_lt
  exact ⟨⟨by omega, by omega⟩, rfl⟩

theorem readSigned_int64 (n : Int64) (rest : List UInt8) :
    readSigned 8 (signedBytes 8 n.toInt ++ rest) = some (n.toInt, rest) := by
  apply (reads_signed 8 _ _ _).mpr
  have low := n.le_toInt
  have high := n.toInt_lt
  exact ⟨⟨by omega, by omega⟩, rfl⟩

theorem readSigned_small {n : Nat} (small : n < 2 ^ 31) (rest : List UInt8) :
    readSigned 4 (signedBytes 4 n ++ rest) = some ((n : Int), rest) := by
  apply (reads_signed 4 _ _ _).mpr
  exact ⟨⟨by omega, by omega⟩, rfl⟩

theorem readUnsigned_littleEndian {width n : Nat} (small : n < 256 ^ width) (rest : List UInt8) :
    readUnsigned width (littleEndian width n ++ rest) = some (n, rest) :=
  (reads_littleEndian width _ _ _).mpr ⟨small, rfl⟩

theorem takeBytes_append {width : Nat} {bytes : List UInt8} (length : bytes.length = width)
    (rest : List UInt8) : takeBytes width (bytes ++ rest) = some (bytes, rest) :=
  (reads_takeBytes width _ _ _).mpr ⟨length, rfl⟩

theorem CNetAddr.ofBytes_toList (addr : CNetAddr) : CNetAddr.ofBytes addr.toList = addr := by
  unfold CNetAddr.ofBytes
  ext i below
  simp

namespace CAddrInfo

/-- What an entry becomes when another is read onto it. -/
def restore (info : CAddrInfo) (stored : CAddrInfo) : CAddrInfo :=
  { info with
    service := stored.service
    nServices := stored.nServices
    nTime := stored.nTime
    nLastTry := 0
    source := stored.source
    nLastSuccess := stored.nLastSuccess
    nAttempts := stored.nAttempts }

theorem unserialize_serialize (info stored : CAddrInfo) (nVersion : Int32) (rest : List UInt8) :
    info.unserialize (stored.serialize nVersion ++ rest) = some (info.restore stored, rest) := by
  have port : UInt16.ofNat (ofLittleEndian (littleEndian 2 stored.service.port.toNat)) =
      stored.service.port := by
    rw [ofLittleEndian_littleEndian (by have small := stored.service.port.toNat_lt; omega),
      UInt16.ofNat_toNat]
  have time : stored.nTime.toNat < 256 ^ 4 := by
    have small := stored.nTime.toNat_lt
    omega
  have services : stored.nServices.toNat < 256 ^ 8 := by
    have small := stored.nServices.toNat_lt
    omega
  unfold unserialize serialize
  simp only [append_assoc, readSigned_int32, readSigned_int64, readUnsigned_littleEndian time,
    readUnsigned_littleEndian services, Option.bind_eq_bind, Option.bind_some,
    takeBytes_append (show stored.service.ip.toList.length = 16 by simp),
    takeBytes_append (show (littleEndian 2 stored.service.port.toNat).reverse.length = 2 by simp),
    takeBytes_append (show stored.source.toList.length = 16 by simp), reverse_reverse, port,
    CNetAddr.ofBytes_toList, UInt64.ofNat_toNat, UInt32.ofNat_toNat, Int64.ofInt_toInt,
    Int32.ofInt_toInt]
  rfl

/-- An entry as the disk keeps it. -/
def onDisk (info : CAddrInfo) : CAddrInfo :=
  { info with nLastTry := 0, nRefCount := 0, nRandomPos := 0 }

end CAddrInfo

namespace CAddrMan

variable {hashLow64 : List UInt8 → UInt64} {pending : Set Nat} {newAhead triedAhead : Int}
  {s s' : CAddrMan}

/-! ## What is written -/

/-- The entries of the "new" table. -/
def newEntries (s : CAddrMan) : List (Sigma fun _ : Nat => CAddrInfo) :=
  s.mapInfo.inOrder.filter fun e => e.2.nRefCount ≠ 0

/-- The entries of the "tried" table. -/
def triedEntries (s : CAddrMan) : List (Sigma fun _ : Nat => CAddrInfo) :=
  s.mapInfo.inOrder.filter fun e => e.2.fInTried

theorem serializeNew_eq (nVersion : Int32) (nNew : Int)
    (entries : List (Sigma fun _ : Nat => CAddrInfo)) (distinct : (entries.map Sigma.fst).Nodup)
    (nIds : Nat) (mapUnkIds : AssocMap Nat Nat)
    (enough : nIds + ((entries.filter fun e => e.2.nRefCount ≠ 0).length : Int) ≤ nNew) :
    ∃ after, serializeNew nVersion nNew entries nIds mapUnkIds =
        some ((entries.filter fun e => e.2.nRefCount ≠ 0).flatMap fun e =>
          e.2.serialize nVersion, after) ∧
      (∀ (j : Nat) (e : Sigma fun _ : Nat => CAddrInfo),
        (entries.filter fun e => e.2.nRefCount ≠ 0)[j]? = some e →
          after.lookup e.1 = some (nIds + j)) ∧
      ∀ k, k ∉ entries.map Sigma.fst → after.lookup k = mapUnkIds.lookup k := by
  induction entries generalizing nIds mapUnkIds with
  | nil => exact ⟨mapUnkIds, rfl, by simp, fun _ _ => rfl⟩
  | cons e entries ih =>
    obtain ⟨new, distinct⟩ := nodup_cons.mp distinct
    have behind : ∀ {after : AssocMap Nat Nat},
        (∀ k, k ∉ entries.map Sigma.fst → after.lookup k = (mapUnkIds.insert e.1 nIds).lookup k) →
        ∀ k, k ∉ (e :: entries).map Sigma.fst → after.lookup k = mapUnkIds.lookup k := by
      intro after others k outside
      have apart : k ≠ e.1 := fun same => outside (same ▸ mem_cons_self)
      rw [others k fun member => outside (mem_cons_of_mem _ member),
        lookup_insert_eq, if_neg apart]
    by_cases refs : e.2.nRefCount ≠ 0
    · have split : (e :: entries).filter (fun e => e.2.nRefCount ≠ 0) =
          e :: entries.filter fun e => e.2.nRefCount ≠ 0 :=
        filter_cons_of_pos (by simpa using refs)
      rw [split, length_cons] at enough
      obtain ⟨after, result, numbers, others⟩ :=
        ih distinct (nIds + 1) (mapUnkIds.insert e.1 nIds) (by omega)
      refine ⟨after, ?_, ?_, behind others⟩
      · rw [serializeNew, if_pos refs, if_neg (by omega), result, split]
        rfl
      rw [split]
      rintro (_ | j) e' here
      · obtain rfl := Option.some.inj here
        rw [others e.1 new, lookup_insert_eq, if_pos rfl]
        rfl
      · rw [numbers j e' here]
        congr 1
        omega
    · have split : (e :: entries).filter (fun e => e.2.nRefCount ≠ 0) =
          entries.filter fun e => e.2.nRefCount ≠ 0 :=
        filter_cons_of_neg (by simpa using refs)
      rw [split] at enough
      obtain ⟨after, result, numbers, others⟩ :=
        ih distinct nIds (mapUnkIds.insert e.1 nIds) enough
      refine ⟨after, ?_, ?_, behind others⟩
      · rw [serializeNew, if_neg refs, result, split]
      · rw [split]
        exact numbers

theorem serializeTried_eq (nVersion : Int32) (nTried : Int)
    (entries : List (Sigma fun _ : Nat => CAddrInfo)) (nIds : Nat)
    (enough : nIds + ((entries.filter fun e => e.2.fInTried).length : Int) ≤ nTried) :
    serializeTried nVersion nTried entries nIds =
      some ((entries.filter fun e => e.2.fInTried).flatMap fun e => e.2.serialize nVersion) := by
  induction entries generalizing nIds with
  | nil => rfl
  | cons e entries ih =>
    by_cases isTried : e.2.fInTried = true
    · have split : (e :: entries).filter (fun e => e.2.fInTried) =
          e :: entries.filter fun e => e.2.fInTried := filter_cons_of_pos isTried
      rw [split, length_cons] at enough
      rw [serializeTried, if_pos isTried, if_neg (by omega), ih (nIds + 1) (by omega), split]
      rfl
    · have split : (e :: entries).filter (fun e => e.2.fInTried) =
          entries.filter fun e => e.2.fInTried := filter_cons_of_neg isTried
      rw [split] at enough
      rw [serializeTried, if_neg isTried, ih nIds enough, split]

namespace Tracked

/-- Between the operations the "new" entries are those with a slot. -/
theorem nRefCount_ne_zero_iff (tracked : Tracked hashLow64 ∅ newAhead triedAhead s) {nId : Nat}
    {info : CAddrInfo} (found : s.mapInfo.lookup nId = some info) :
    info.nRefCount ≠ 0 ↔ info.fInTried = false := by
  have place := tracked.inPlace nId info found
  have refs := place.refs
  cases flag : info.fInTried with
  | true =>
    have nowhere := (place.tried flag).1
    simp only [Bool.true_eq_false, iff_false, ne_eq, not_not]
    omega
  | false =>
    have some_slot := place.new flag (Set.notMem_empty nId)
    simp only [iff_true]
    omega

theorem newEntries_eq (tracked : Tracked hashLow64 ∅ newAhead triedAhead s) :
    s.newEntries = s.mapInfo.inOrder.filter fun e => !e.2.fInTried := by
  apply filter_congr
  intro e member
  have same := tracked.nRefCount_ne_zero_iff (mem_inOrder.mp member)
  cases flag : e.2.fInTried with
  | true =>
    rw [flag] at same
    simpa using same
  | false =>
    rw [flag] at same
    simpa using same

theorem length_newEntries (tracked : Tracked hashLow64 ∅ 0 0 s) :
    (s.newEntries.length : Int) = s.nNew := by
  rw [tracked.newEntries_eq, tracked.nNew, Int.add_zero, ← countP_eq_length_filter,
    s.mapInfo.inOrder_perm.countP_eq]
  rfl

theorem length_triedEntries (tracked : Tracked hashLow64 ∅ 0 0 s) :
    (s.triedEntries.length : Int) = s.nTried := by
  rw [triedEntries, tracked.nTried, Int.add_zero, ← countP_eq_length_filter,
    s.mapInfo.inOrder_perm.countP_eq]
  rfl

end Tracked

/-! ## Taking the entries in -/

/-- The entries are, under the numbers from zero on, those of a list as the disk keeps them. -/
def Holds (s : CAddrMan) (l : List CAddrInfo) : Prop :=
  ∀ k, (s.mapInfo.lookup k).map CAddrInfo.onDisk = l[k]?.map CAddrInfo.onDisk

/-- While the entries are read, any of them may wait for a slot. -/
structure Loading (hashLow64 : List UInt8 → UInt64) (l : List CAddrInfo)
    (newAhead triedAhead : Int) (s : CAddrMan) : Prop where
  tracked : Tracked hashLow64 Set.univ newAhead triedAhead s
  holds : s.Holds l
  next : s.nIdCount = l.length

/-- What the loop over the "new" entries does not touch. -/
structure SameTables (s s' : CAddrMan) : Prop where
  nKey : s'.nKey = s.nKey
  vvNew : s'.vvNew = s.vvNew
  vvTried : s'.vvTried = s.vvTried
  nNew : s'.nNew = s.nNew
  nTried : s'.nTried = s.nTried

theorem Holds.lookup {l : List CAddrInfo} (holds : s.Holds l) {k : Nat} {stored : CAddrInfo}
    (here : l[k]? = some stored) :
    ∃ info, s.mapInfo.lookup k = some info ∧ info.onDisk = stored.onDisk := by
  have same := holds k
  rw [here, Option.map_some, Option.map_eq_some_iff] at same
  exact same

variable {info : CAddrInfo} {header : Header}

theorem Holds.getElem? {l : List CAddrInfo} (holds : s.Holds l) {k : Nat}
    (found : s.mapInfo.lookup k = some info) :
    ∃ stored, l[k]? = some stored ∧ stored.onDisk = info.onDisk := by
  have same := holds k
  rw [found, Option.map_some, eq_comm, Option.map_eq_some_iff] at same
  exact same

theorem eq_of_onDisk {β : Type*} {info' : CAddrInfo} (same : info'.onDisk = info.onDisk)
    (f : CAddrInfo → β) (ignores : ∀ info, f info.onDisk = f info) : f info' = f info := by
  rw [← ignores info', same, ignores]

theorem service_of_onDisk {info' : CAddrInfo} (same : info'.onDisk = info.onDisk) :
    info'.service = info.service :=
  eq_of_onDisk same (fun info => info.service) fun _ => rfl

namespace Loading

variable {l : List CAddrInfo}

/-- An entry with a new address is taken in. -/
theorem enlist (loading : Loading hashLow64 l newAhead triedAhead s)
    (room : l.length + 1 < 2 ^ 32) (info stored : CAddrInfo)
    (same : info.onDisk = stored.onDisk) (isNew : info.fInTried = false)
    (refs : info.nRefCount = 0) (times : 0 ≤ info.nLastTry ∧ 0 ≤ info.nLastSuccess)
    (newAddress : ∀ known ∈ l, known.service.ip ≠ stored.service.ip) :
    Loading hashLow64 (l ++ [stored]) (newAhead - 1) triedAhead (s.enlist info) := by
  have absent : s.mapAddr.lookup info.service.ip = none := by
    cases there : s.mapAddr.lookup info.service.ip with
    | none => rfl
    | some k =>
      obtain ⟨old, found, ip⟩ := Option.map_eq_some_iff.mp
        ((loading.tracked.inverse k info.service.ip).mpr there)
      obtain ⟨known, member, disk⟩ := loading.holds.getElem? found
      refine absurd ?_ (newAddress known (mem_of_getElem? member))
      rw [service_of_onDisk disk, ip, service_of_onDisk same]
  have roomOf : s.nIdCount + 1 < 2 ^ 32 := loading.next ▸ room
  refine ⟨(loading.tracked.enlist roomOf info absent isNew refs times).mono (Set.subset_univ _),
    fun k => ?_, ?_⟩
  · have lookup : (s.enlist info).mapInfo.lookup k =
        if k = s.nIdCount then some { info with nRandomPos := s.vRandom.length }
        else s.mapInfo.lookup k := lookup_insert_eq s.mapInfo s.nIdCount k _
    rw [lookup, loading.next]
    by_cases last : k = l.length
    · subst last
      rw [if_pos rfl, List.getElem?_concat_length, Option.map_some, Option.map_some, ← same]
      rfl
    rw [if_neg last, loading.holds k]
    congr 1
    rw [List.getElem?_append]
    split
    · rfl
    · rw [List.getElem?_eq_none (by omega), List.getElem?_eq_none (by simp; omega)]
  · show nextId s.nIdCount = _
    rw [nextId_of_lt roomOf, loading.next, length_append]
    rfl

/-- An entry is taken in to its free slot of the "tried" table. -/
theorem loadTried (loading : Loading hashLow64 l newAhead triedAhead s)
    (room : l.length + 1 < 2 ^ 32) (info stored : CAddrInfo)
    (same : info.onDisk = { stored with fInTried := false }.onDisk)
    (isTried : stored.fInTried = true)
    (refs : info.nRefCount = 0) (times : 0 ≤ info.nLastTry ∧ 0 < info.nLastSuccess)
    (newAddress : ∀ known ∈ l, known.service.ip ≠ stored.service.ip)
    (free : s.vvTried (info.triedSlot hashLow64 s.nKey) = none) :
    Loading hashLow64 (l ++ [stored]) newAhead (triedAhead - 1) (s.loadTried hashLow64 info) := by
  have isNew : info.fInTried = false :=
    eq_of_onDisk same (fun info => info.fInTried) fun _ => rfl
  have entered := loading.enlist room info { stored with fInTried := false } same isNew refs
    ⟨times.1, Int64.le_of_lt times.2⟩ newAddress
  have found : (s.enlist info).mapInfo.lookup s.nIdCount =
      some { info with nRandomPos := s.vRandom.length } := AList.lookup_insert s.mapInfo
  have nowhere : held newSlots s.vvNew s.nIdCount = 0 := by
    rw [Tracked.held_eq_zero_iff]
    intro slot here
    obtain ⟨old, there, -⟩ := loading.tracked.newSlot slot _ here
    exact absurd (loading.tracked.fresh _ old there) (Nat.lt_irrefl _)
  have placed := (entered.tracked.mono (Set.subset_insert s.nIdCount _)).enterTried
    (info.triedSlot hashLow64 s.nKey) found isNew nowhere free rfl (by
      intro zero
      rw [zero] at times
      exact Int64.lt_irrefl times.2)
  have result : s.loadTried hashLow64 info =
      { (s.enlist info).enterTried (info.triedSlot hashLow64 s.nKey) s.nIdCount with
        nTried := s.nTried } := by
    have entry : (s.enlist info).mapInfo.modify s.nIdCount
        (fun info => { info with fInTried := true }) = s.mapInfo.insert s.nIdCount
          { info with nRandomPos := s.vRandom.length, fInTried := true } := by
      rw [AssocMap.modify, found]
      exact AList.insert_insert s.mapInfo
    unfold CAddrMan.loadTried
    simp only [if_pos free, CAddrMan.enterTried, entry]
    rfl
  have counted := placed.countTried (-1)
  rw [show newAhead - 1 + 1 = newAhead by omega] at counted
  have tracked : Tracked hashLow64 Set.univ newAhead (triedAhead - 1)
      (s.loadTried hashLow64 info) := by
    rw [result]
    have count : s.nTried + 1 + -1 = s.nTried := by omega
    have equal : ({ (s.enlist info).enterTried (info.triedSlot hashLow64 s.nKey) s.nIdCount with
        nTried := s.nTried } : CAddrMan) =
        { (s.enlist info).enterTried (info.triedSlot hashLow64 s.nKey) s.nIdCount with
          nTried := s.nTried + 1 + -1 } := by rw [count]
    rw [equal]
    exact counted
  refine ⟨tracked, fun k => ?_, ?_⟩
  · rw [result]
    have lookup : ((s.enlist info).enterTried (info.triedSlot hashLow64 s.nKey)
        s.nIdCount).mapInfo.lookup k = if k = s.nIdCount
          then ((s.enlist info).mapInfo.lookup s.nIdCount).map fun info =>
            { info with fInTried := true }
          else (s.enlist info).mapInfo.lookup k := lookup_modify _ _ _ _
    have before := entered.holds k
    rw [lookup]
    by_cases last : k = s.nIdCount
    · rw [if_pos last, found, last, loading.next, List.getElem?_concat_length]
      have flagged := congrArg (fun info : CAddrInfo => { info with fInTried := true }) same
      have back : { stored with fInTried := true } = stored := by
        cases stored
        subst isTried
        rfl
      simp only [Option.map_some, Option.some.injEq]
      calc CAddrInfo.onDisk { info with nRandomPos := s.vRandom.length, fInTried := true }
          = { info.onDisk with fInTried := true } := rfl
        _ = { ({ stored with fInTried := false } : CAddrInfo).onDisk with fInTried := true } :=
            flagged
        _ = CAddrInfo.onDisk { stored with fInTried := true } := rfl
        _ = stored.onDisk := by rw [back]
    · rw [if_neg last, before, List.getElem?_append, List.getElem?_append]
      have outside : k ≠ l.length := by
        rw [← loading.next]
        exact last
      split
      · rfl
      · rw [List.getElem?_eq_none (by simp; omega), List.getElem?_eq_none (by simp; omega)]
  · rw [result]
    show nextId s.nIdCount = _
    rw [loading.next, nextId_of_lt room, length_append]
    rfl

end Loading

/-! ## The loops of the reader -/

theorem loadNew_of_usable (usable : header.usable = true) (info : CAddrInfo) (n : Nat) :
    ({ s.loadNew hashLow64 header n info with nIdCount := nextId n } : CAddrMan) =
      ({ s with nIdCount := n } : CAddrMan).enlist info := by
  simp only [loadNew, usable, if_true, CAddrMan.enlist]

theorem readNew_eq (usable : header.usable = true) (nVersion : Int32) (rest : List UInt8)
    (infos l : List CAddrInfo)
    (loading : Loading hashLow64 l newAhead triedAhead { s with nIdCount := l.length })
    (room : (l ++ infos).length < 2 ^ 32)
    (distinct : ((l ++ infos).map fun info => info.service.ip).Nodup)
    (isNew : ∀ info ∈ infos, info.fInTried = false ∧ 0 ≤ info.nLastSuccess) :
    ∃ s', s.readNew hashLow64 header infos.length l.length
        (infos.flatMap (CAddrInfo.serialize nVersion) ++ rest) = some (s', rest) ∧
      Loading hashLow64 (l ++ infos) (newAhead - infos.length) triedAhead
        { s' with nIdCount := (l ++ infos).length } ∧ SameTables s s' := by
  induction infos generalizing l newAhead s with
  | nil =>
    refine ⟨s, rfl, ?_, ⟨rfl, rfl, rfl, rfl, rfl⟩⟩
    simpa using loading
  | cons stored infos ih =>
    obtain ⟨⟨flag, time⟩, isNew⟩ := forall_mem_cons.mp isNew
    have absent : s.mapInfo.lookup l.length = none := by
      have nothing := loading.holds l.length
      rw [List.getElem?_eq_none (Nat.le_refl _), Option.map_none, Option.map_eq_none_iff] at nothing
      exact nothing
    have newAddress : ∀ known ∈ l, known.service.ip ≠ stored.service.ip := by
      intro known member equal
      rw [map_append, nodup_append] at distinct
      exact distinct.2.2 _ (mem_map_of_mem member) _ (mem_map_of_mem mem_cons_self)
        equal
    have disk : (blank.restore stored).onDisk = stored.onDisk := by
      cases stored
      subst flag
      rfl
    have length : (l ++ [stored]).length = l.length + 1 := by simp
    have split : l ++ stored :: infos = (l ++ [stored]) ++ infos := by simp
    have roomOf : l.length + 1 < 2 ^ 32 := by
      rw [split, length_append, length] at room
      omega
    have entered := loading.enlist roomOf (blank.restore stored) stored disk rfl rfl
      ⟨Int64.le_refl 0, time⟩ newAddress
    rw [← loadNew_of_usable usable, nextId_of_lt roomOf] at entered
    obtain ⟨s', result, loading', same⟩ := ih (l ++ [stored])
      (s := s.loadNew hashLow64 header l.length (blank.restore stored))
      (by rw [length]; exact entered) (split ▸ room) (by rw [← split]; exact distinct) isNew
    refine ⟨s', ?_, ?_, ?_⟩
    · rw [length_cons, flatMap_cons, append_assoc, readNew, absent,
        Option.getD_none, CAddrInfo.unserialize_serialize]
      rw [length] at result
      exact result
    · rw [split, length_cons,
        show newAhead - ((infos.length + 1 : Nat) : Int) = newAhead - 1 - infos.length by omega]
      exact loading'
    have first : SameTables s
        (s.loadNew hashLow64 header l.length (blank.restore stored)) := by
      simp only [loadNew, usable, if_true]
      exact ⟨rfl, rfl, rfl, rfl, rfl⟩
    exact ⟨same.nKey.trans first.nKey, same.vvNew.trans first.vvNew,
      same.vvTried.trans first.vvTried, same.nNew.trans first.nNew,
      same.nTried.trans first.nTried⟩

theorem readTried_eq (nVersion : Int32) (rest : List UInt8) (infos l : List CAddrInfo)
    (loading : Loading hashLow64 l newAhead triedAhead s)
    (room : (l ++ infos).length < 2 ^ 32) (distinct : ((l ++ infos).map fun info => info.service.ip).Nodup)
    (isTried : ∀ info ∈ infos, info.fInTried = true ∧ 0 < info.nLastSuccess)
    (slots : (infos.map fun info => info.triedSlot hashLow64 s.nKey).Nodup)
    (free : ∀ info ∈ infos, s.vvTried (info.triedSlot hashLow64 s.nKey) = none) :
    ∃ s', s.readTried hashLow64 infos.length
        (infos.flatMap (CAddrInfo.serialize nVersion) ++ rest) = some (s', rest) ∧
      Loading hashLow64 (l ++ infos) newAhead (triedAhead - infos.length) s' ∧
      s'.nKey = s.nKey ∧ s'.vvNew = s.vvNew ∧ s'.nNew = s.nNew := by
  induction infos generalizing l triedAhead s with
  | nil =>
    refine ⟨s, rfl, ?_, rfl, rfl, rfl⟩
    simpa using loading
  | cons stored infos ih =>
    obtain ⟨⟨flag, time⟩, isTried⟩ := forall_mem_cons.mp isTried
    obtain ⟨freeFirst, free⟩ := forall_mem_cons.mp free
    obtain ⟨otherSlots, slots⟩ := nodup_cons.mp slots
    have newAddress : ∀ known ∈ l, known.service.ip ≠ stored.service.ip := by
      intro known member equal
      rw [map_append, nodup_append] at distinct
      exact distinct.2.2 _ (mem_map_of_mem member) _ (mem_map_of_mem mem_cons_self)
        equal
    have ownSlot : (blank.restore stored).triedSlot hashLow64 s.nKey =
        stored.triedSlot hashLow64 s.nKey := triedSlot_congr rfl
    have split : l ++ stored :: infos = (l ++ [stored]) ++ infos := by simp
    have roomOf : l.length + 1 < 2 ^ 32 := by
      rw [split, length_append, length_append] at room
      exact Nat.lt_of_le_of_lt (Nat.le_add_right _ _) room
    have entered := loading.loadTried roomOf (blank.restore stored) stored
      rfl flag rfl ⟨Int64.le_refl 0, time⟩ newAddress (by rw [ownSlot]; exact freeFirst)
    have loaded : s.loadTried hashLow64 (blank.restore stored) =
        { s with
          nIdCount := nextId s.nIdCount
          mapInfo := s.mapInfo.insert s.nIdCount
            { blank.restore stored with
              nRandomPos := s.vRandom.length, fInTried := true }
          mapAddr := s.mapAddr.insert stored.service.ip s.nIdCount
          vRandom := s.vRandom ++ [s.nIdCount]
          vvTried := Function.update s.vvTried (stored.triedSlot hashLow64 s.nKey)
            (some s.nIdCount) } := by
      rw [CAddrMan.loadTried]
      simp only [ownSlot, if_pos freeFirst]
      rfl
    obtain ⟨s', result, loading', nKey, vvNew, nNew⟩ := ih (l ++ [stored]) entered
      (split ▸ room) (by rw [← split]; exact distinct) isTried (by rw [loaded]; exact slots) (by
        intro info member
        rw [loaded]
        show Function.update s.vvTried _ _ (info.triedSlot hashLow64 s.nKey) = none
        rw [Function.update_of_ne, free info member]
        intro equal
        exact otherSlots (mem_map.mpr ⟨info, member, equal⟩))
    refine ⟨s', ?_, ?_, ?_, ?_, ?_⟩
    · rw [length_cons, flatMap_cons, append_assoc, readTried,
        CAddrInfo.unserialize_serialize]
      exact result
    · rw [split, length_cons,
        show triedAhead - ((infos.length + 1 : Nat) : Int) = triedAhead - 1 - infos.length by omega]
      exact loading'
    · rw [nKey, loaded]
    · rw [vvNew, loaded]
    · rw [nNew, loaded]

/-- The table of the file, with the new numbers of the entries. -/
def tableOf (s : CAddrMan) (mapUnkIds : AssocMap Nat Nat) (slot : NewSlot) : Option Nat :=
  (s.vvNew slot).map fun nId => (mapUnkIds.lookup nId).getD 0

/-- While the buckets are read: the slots filled so far are right. -/
structure Filling (hashLow64 : List UInt8 → UInt64) (table : NewSlot → Option Nat)
    (l : List CAddrInfo) (newAhead triedAhead : Int) (s : CAddrMan) : Prop
    extends Loading hashLow64 l newAhead triedAhead s where
  within : ∀ slot nId, s.vvNew slot = some nId → table slot = some nId

/-- What a table must be like for its numbers to be taken in. -/
structure Fits (hashLow64 : List UInt8 → UInt64) (table : NewSlot → Option Nat)
    (l : List CAddrInfo) (nKey : UInt256) (nNew : Int) : Prop where
  below : ∀ slot nId, table slot = some nId → (nId : Int) < nNew ∧ nId < 2 ^ 31
  own : ∀ slot nId, table slot = some nId → ∃ info, l[nId]? = some info ∧
    info.fInTried = false ∧ slot = info.newSlotIn hashLow64 nKey slot.1
  few : ∀ nId, held newSlots table nId ≤ ADDRMAN_NEW_BUCKETS_PER_ADDRESS

theorem Filling.loadIndex (usable : header.usable = true) {table : NewSlot → Option Nat}
    {l : List CAddrInfo} (filling : Filling hashLow64 table l newAhead triedAhead s)
    (fits : Fits hashLow64 table l s.nKey s.nNew) {slot : NewSlot} {nId : Nat}
    (here : table slot = some nId) (free : s.vvNew slot = none) :
    s.loadIndex hashLow64 header slot.1 nId = s.enterNew slot nId ∧
      Filling hashLow64 table l newAhead triedAhead (s.enterNew slot nId) := by
  obtain ⟨stored, member, isNew, own⟩ := fits.own slot nId here
  obtain ⟨info, found, disk⟩ := filling.holds.lookup member
  have flag : info.fInTried = false :=
    (eq_of_onDisk disk (fun info => info.fInTried) fun _ => rfl).trans isNew
  have slotOf : info.newSlotIn hashLow64 s.nKey slot.1 = slot := by
    rw [newSlotIn_congr (service_of_onDisk disk), ← own]
  have room : held newSlots s.vvNew nId + 1 ≤ ADDRMAN_NEW_BUCKETS_PER_ADDRESS := by
    rw [← held_enter (a := nId) nodup_newSlots (mem_newSlots slot) free]
    refine Nat.le_trans (countP_mono_left fun i _ there => ?_) (fits.few nId)
    apply decide_eq_true
    rcases of_update_some (of_decide_eq_true there) with ⟨rfl, -⟩ | ⟨-, before⟩
    · exact here
    · exact filling.within i nId before
  have refs := (filling.tracked.inPlace nId info found).refs
  have entered := (filling.tracked.mono (Set.subset_insert nId _)).enterNew found flag free
    slotOf.symm (by omega)
  constructor
  · unfold CAddrMan.loadIndex
    rw [if_pos ⟨Int.natCast_nonneg nId, (fits.below slot nId here).1⟩]
    simp only [Int.toNat_natCast, found, Option.getD_some, Fin.ofNat_val_eq_self, slotOf]
    rw [if_pos ⟨usable, free, by omega⟩]
  refine ⟨⟨entered, fun k => ?_, filling.next⟩, fun slot' k there => ?_⟩
  · rw [← filling.holds k]
    show Option.map _ ((s.mapInfo.modify nId _).lookup k) = _
    rw [lookup_modify]
    by_cases same : k = nId
    · rw [if_pos same, same, Option.map_map]
      rfl
    · rw [if_neg same]
  · rcases of_update_some there with ⟨rfl, rfl⟩ | ⟨-, before⟩
    · exact here
    · exact filling.within slot' k before

/-- The numbers of one bucket are taken in, position by position. -/
theorem readIndices_eq (usable : header.usable = true) {mapUnkIds : AssocMap Nat Nat}
    {source : CAddrMan} {l : List CAddrInfo} (rest : List UInt8)
    (bucket : Fin ADDRMAN_NEW_BUCKET_COUNT) (positions : List (Fin ADDRMAN_BUCKET_SIZE))
    (distinct : positions.Nodup)
    (filling : Filling hashLow64 (source.tableOf mapUnkIds) l newAhead triedAhead s)
    (fits : Fits hashLow64 (source.tableOf mapUnkIds) l s.nKey s.nNew)
    (free : ∀ i ∈ positions, s.vvNew (bucket, i) = none) :
    ∃ s', s.readIndices hashLow64 header bucket
        (positions.filterMap fun i => source.vvNew (bucket, i)).length
        (((positions.filterMap fun i => source.vvNew (bucket, i)).flatMap fun nId =>
          signedBytes 4 ((mapUnkIds.lookup nId).getD 0 : Nat)) ++ rest) = some (s', rest) ∧
      Filling hashLow64 (source.tableOf mapUnkIds) l newAhead triedAhead s' ∧
      s'.nKey = s.nKey ∧ s'.nNew = s.nNew ∧
      (∀ i ∈ positions, s'.vvNew (bucket, i) = source.tableOf mapUnkIds (bucket, i)) ∧
      ∀ slot, slot.1 ≠ bucket ∨ slot.2 ∉ positions → s'.vvNew slot = s.vvNew slot := by
  induction positions generalizing s with
  | nil => exact ⟨s, rfl, filling, rfl, rfl, by simp, fun _ _ => rfl⟩
  | cons i positions ih =>
    obtain ⟨new, distinct⟩ := nodup_cons.mp distinct
    obtain ⟨freeFirst, free⟩ := forall_mem_cons.mp free
    have other : ∀ {slot : NewSlot}, slot.1 ≠ bucket ∨ slot.2 ∉ i :: positions →
        slot ≠ (bucket, i) ∧ (slot.1 ≠ bucket ∨ slot.2 ∉ positions) := by
      rintro slot (bucketApart | outside)
      · exact ⟨fun equal => bucketApart (congrArg Prod.fst equal), Or.inl bucketApart⟩
      · exact ⟨fun equal => outside (by rw [equal]; exact mem_cons_self),
          Or.inr fun member => outside (mem_cons_of_mem _ member)⟩
    cases here : source.vvNew (bucket, i) with
    | none =>
      obtain ⟨s', result, filling', nKey, nNew, filled, kept⟩ := ih distinct filling fits free
      refine ⟨s', ?_, filling', nKey, nNew, ?_, fun slot apart => kept slot (other apart).2⟩
      · rw [filterMap_cons_none (f := fun i => source.vvNew (bucket, i)) here]
        exact result
      · refine forall_mem_cons.mpr ⟨?_, filled⟩
        rw [kept _ (Or.inr new), freeFirst, tableOf, here]
        rfl
    | some nId =>
      have table : source.tableOf mapUnkIds (bucket, i) =
          some ((mapUnkIds.lookup nId).getD 0) := by
        rw [tableOf, here]
        rfl
      obtain ⟨loaded, entered⟩ := filling.loadIndex usable fits table freeFirst
      obtain ⟨s', result, filling', nKey, nNew, filled, kept⟩ := ih distinct entered fits (by
        intro j member
        show Function.update s.vvNew _ _ (bucket, j) = none
        rw [Function.update_of_ne, free j member]
        intro equal
        obtain rfl : j = i := congrArg Prod.snd equal
        exact new member)
      refine ⟨s', ?_, filling', nKey, nNew, ?_, fun slot apart => ?_⟩
      · rw [filterMap_cons_some (f := fun i => source.vvNew (bucket, i)) here,
          length_cons, flatMap_cons, append_assoc, readIndices,
          readSigned_small (fits.below _ _ table).2]
        simp only
        rw [loaded]
        exact result
      · refine forall_mem_cons.mpr ⟨?_, filled⟩
        rw [kept _ (Or.inr new), table]
        exact Function.update_self ..
      · obtain ⟨apart, behind⟩ := other apart
        rw [kept slot behind]
        exact Function.update_of_ne apart ..

/-- The buckets are taken in, one after the other. -/
theorem readBuckets_eq (usable : header.usable = true) (mapUnkIds : AssocMap Nat Nat)
    (source : CAddrMan) {l : List CAddrInfo} (rest : List UInt8)
    (buckets : List (Fin ADDRMAN_NEW_BUCKET_COUNT)) (n : Nat)
    (numbers : buckets.map Fin.val = List.range' n buckets.length)
    (filling : Filling hashLow64 (source.tableOf mapUnkIds) l newAhead triedAhead s)
    (fits : Fits hashLow64 (source.tableOf mapUnkIds) l s.nKey s.nNew)
    (free : ∀ slot : NewSlot, slot.1 ∈ buckets → s.vvNew slot = none) :
    ∃ s', s.readBuckets hashLow64 header buckets.length n
        (buckets.flatMap (source.serializeBucket mapUnkIds) ++ rest) = some (s', rest) ∧
      Filling hashLow64 (source.tableOf mapUnkIds) l newAhead triedAhead s' ∧
      (∀ slot : NewSlot, slot.1 ∈ buckets → s'.vvNew slot = source.tableOf mapUnkIds slot) ∧
      (∀ slot : NewSlot, slot.1 ∉ buckets → s'.vvNew slot = s.vvNew slot) ∧ s'.nKey = s.nKey := by
  induction buckets generalizing n s with
  | nil => exact ⟨s, rfl, filling, by simp, fun _ _ => rfl, rfl⟩
  | cons bucket buckets ih =>
    obtain ⟨number, numbers⟩ := List.cons.inj numbers
    have new : bucket ∉ buckets := by
      intro member
      have later := mem_map_of_mem (f := Fin.val) member
      rw [numbers, mem_range'_1] at later
      omega
    obtain ⟨s₁, row, filling₁, nKey, nNew, filled₁, kept₁⟩ := readIndices_eq usable
      (buckets.flatMap (source.serializeBucket mapUnkIds) ++ rest) bucket
      (List.finRange ADDRMAN_BUCKET_SIZE) (nodup_finRange _) filling fits
      fun i _ => free (bucket, i) mem_cons_self
    obtain ⟨s', result, filling', filled, kept, nKey'⟩ := ih (n + 1) numbers filling₁
      (by rw [nKey, nNew]; exact fits) (by
        intro slot member
        have apart : slot.1 ≠ bucket := by
          rintro equal
          exact new (equal ▸ member)
        rw [kept₁ slot (Or.inl apart)]
        exact free slot (mem_cons_of_mem _ member))
    refine ⟨s', ?_, filling', ?_, ?_, nKey'.trans nKey⟩
    · have size : ((List.finRange ADDRMAN_BUCKET_SIZE).filterMap
          fun i => source.vvNew (bucket, i)).length < 2 ^ 31 := by
        have atMost := length_filterMap_le (fun i => source.vvNew (bucket, i))
          (List.finRange ADDRMAN_BUCKET_SIZE)
        exact Nat.lt_of_le_of_lt atMost (by decide)
      rw [length_cons, flatMap_cons, append_assoc, readBuckets, serializeBucket]
      simp only [append_assoc]
      rw [readSigned_small size]
      simp only [Int.toNat_natCast]
      rw [← number, row]
      rw [number]
      exact result
    · intro slot member
      rcases mem_cons.mp member with first | later
      · have outside : slot.1 ∉ buckets := fun later => new (first ▸ later)
        rw [kept slot outside]
        have stands := filled₁ slot.2 (mem_finRange _)
        rw [← first] at stands
        exact stands
      · exact filled slot later
    · intro slot outside
      rw [kept slot fun later => outside (mem_cons_of_mem _ later),
        kept₁ slot (Or.inl fun equal => outside (equal ▸ mem_cons_self))]

/-- Nothing is deleted when every entry stands somewhere. -/
theorem prune_eq (entries : List (Sigma fun _ : Nat => CAddrInfo))
    (stands : ∀ e ∈ entries, ¬ (e.2.fInTried = false ∧ e.2.nRefCount = 0)) :
    prune entries s = some s := by
  induction entries with
  | nil => rfl
  | cons e entries ih =>
    obtain ⟨first, later⟩ := forall_mem_cons.mp stands
    rw [prune, if_neg first, ih later]

/-! ## A round trip -/

theorem unserialize_of_steps {nKey : UInt256} {s₁ s₂ s₃ s₄ : CAddrMan}
    {bytes bytes₀ bytes₁ bytes₂ bytes₃ : List UInt8}
    (read : readHeader bytes = some (header, bytes₀)) (new : { s.clear nKey with
        nKey := header.nKey, nNew := header.nNew, nTried := header.nTried }.readNew hashLow64 header
      header.nNew.toNat 0 bytes₀ = some (s₁, bytes₁))
    (tried : { s₁ with nIdCount := header.nNew.toNat }.readTried hashLow64 header.nTried.toNat
      bytes₁ = some (s₂, bytes₂))
    (buckets : s₂.readBuckets hashLow64 header header.nUBuckets.toNat 0 bytes₂ =
      some (s₃, bytes₃)) (pruned : prune s₃.mapInfo.inOrder s₃ = some s₄) :
    s.unserialize hashLow64 nKey bytes = some (s₄, bytes₃) := by
  unfold unserialize
  simp only [Option.bind_eq_bind, read, Option.bind_some, new, tried, buckets, pruned]

theorem readHeader_eq (nKey : UInt256) {nNew nTried : Nat} (smallNew : nNew < 2 ^ 31)
    (smallTried : nTried < 2 ^ 31) (rest : List UInt8) :
    readHeader ([1] ++ [32] ++ littleEndian 32 nKey.toNat ++ signedBytes 4 nNew ++
      signedBytes 4 nTried ++
      signedBytes 4 (Int32.ofNat ADDRMAN_NEW_BUCKET_COUNT ^^^ bit30).toInt ++ rest) =
      some (⟨1, nKey, nNew, nTried, ADDRMAN_NEW_BUCKET_COUNT⟩, rest) := by
  have version : ∀ tail : List UInt8, readUnsigned 1 ([1] ++ tail) = some (1, tail) := fun tail =>
    readUnsigned_littleEndian (show 1 < 256 ^ 1 by decide) tail
  have size : ∀ tail : List UInt8, readKeySize ([32] ++ tail) = some tail := by
    intro tail
    rfl
  have buckets : (Int32.ofInt (Int32.ofNat ADDRMAN_NEW_BUCKET_COUNT ^^^ bit30).toInt ^^^
      bit30).toInt = ADDRMAN_NEW_BUCKET_COUNT := by decide
  unfold readHeader
  simp only [append_assoc, version, size, readSigned_small smallNew,
    readSigned_small smallTried, readSigned_int32,
    readUnsigned_littleEndian (show nKey.toNat < 256 ^ 32 from nKey.isLt), Option.bind_eq_bind,
    Option.bind_some, BitVec.ofNat_toNat, BitVec.setWidth_eq, buckets]
  rfl

namespace Tracked

variable {e : Sigma fun _ : Nat => CAddrInfo}

theorem newEntries_spec (tracked : Tracked hashLow64 ∅ newAhead triedAhead s) :
    e ∈ s.newEntries ↔ s.mapInfo.lookup e.1 = some e.2 ∧ e.2.fInTried = false := by
  rw [tracked.newEntries_eq, mem_filter, mem_inOrder, Bool.not_eq_true']

theorem mem_triedEntries :
    e ∈ s.triedEntries ↔ s.mapInfo.lookup e.1 = some e.2 ∧ e.2.fInTried = true := by
  rw [triedEntries, mem_filter, mem_inOrder]

theorem mem_both (tracked : Tracked hashLow64 ∅ newAhead triedAhead s) :
    e ∈ s.newEntries ++ s.triedEntries ↔ s.mapInfo.lookup e.1 = some e.2 := by
  rw [mem_append, tracked.newEntries_spec, mem_triedEntries, ← and_or_left]
  constructor
  · exact And.left
  · exact fun found => ⟨found, (Bool.eq_false_or_eq_true e.2.fInTried).symm⟩

theorem nodup_both (tracked : Tracked hashLow64 ∅ newAhead triedAhead s) :
    (s.newEntries ++ s.triedEntries).Nodup := by
  have all : s.mapInfo.inOrder.Nodup := List.Nodup.of_map Sigma.fst s.mapInfo.nodup_keys_inOrder
  refine nodup_append.mpr ⟨all.filter _, all.filter _, ?_⟩
  rintro e isNew e' isTried rfl
  have flag := (tracked.newEntries_spec.mp isNew).2
  rw [(mem_triedEntries.mp isTried).2] at flag
  cases flag

theorem nodup_fst_filter (p : (Sigma fun _ : Nat => CAddrInfo) → Bool) :
    ((s.mapInfo.inOrder.filter p).map Sigma.fst).Nodup :=
  s.mapInfo.nodup_keys_inOrder.sublist (filter_sublist.map _)

theorem nodup_addresses (tracked : Tracked hashLow64 ∅ newAhead triedAhead s) :
    ((s.newEntries.map Sigma.snd ++ s.triedEntries.map Sigma.snd).map
      fun info => info.service.ip).Nodup := by
  rw [← map_append, map_map]
  refine tracked.nodup_both.map_on fun e member e' member' same => ?_
  have found := tracked.mem_both.mp member
  have found' := tracked.mem_both.mp member'
  have here := (tracked.inverse e.1 e.2.service.ip).mp (by rw [addrOf, found]; rfl)
  have there := (tracked.inverse e'.1 e'.2.service.ip).mp (by rw [addrOf, found']; rfl)
  rw [show e'.2.service.ip = e.2.service.ip from same.symm, here] at there
  have number := Option.some.inj there
  rw [← number, found] at found'
  exact Sigma.ext number (heq_of_eq (Option.some.inj found'))

/-- An entry with a slot of the "new" table has a number in the file. -/
theorem numbered (tracked : Tracked hashLow64 ∅ newAhead triedAhead s) {slot : NewSlot} {nId : Nat}
    (here : s.vvNew slot = some nId) :
    ∃ (info : CAddrInfo) (j : Nat), s.newEntries[j]? = some ⟨nId, info⟩ ∧
      slot = info.newSlotIn hashLow64 s.nKey slot.1 ∧ info.fInTried = false := by
  obtain ⟨info, found, own⟩ := tracked.newSlot slot nId here
  have some_slot := held_pos (mem_newSlots slot) here
  have isNew : info.fInTried = false := by
    cases flag : info.fInTried with
    | false => rfl
    | true =>
      have nowhere := ((tracked.inPlace nId info found).tried flag).1
      omega
  obtain ⟨j, below, member⟩ := getElem_of_mem
    (tracked.newEntries_spec.mpr (show s.mapInfo.lookup (⟨nId, info⟩ : Sigma fun _ => _).1 =
      some (⟨nId, info⟩ : Sigma fun _ : Nat => CAddrInfo).2 ∧ _ from ⟨found, isNew⟩))
  exact ⟨info, j, by rw [List.getElem?_eq_getElem below, member], own, isNew⟩

theorem fits (tracked : Tracked hashLow64 ∅ 0 0 s) {mapUnkIds : AssocMap Nat Nat}
    (numbers : ∀ (j : Nat) (e : Sigma fun _ : Nat => CAddrInfo), s.newEntries[j]? = some e →
      mapUnkIds.lookup e.1 = some j) (small : s.newEntries.length < 2 ^ 31) :
    Fits hashLow64 (s.tableOf mapUnkIds)
      (s.newEntries.map Sigma.snd ++ s.triedEntries.map Sigma.snd) s.nKey s.newEntries.length := by
  have entry : ∀ {slot : NewSlot} {j : Nat}, s.tableOf mapUnkIds slot = some j →
      ∃ nId info, s.vvNew slot = some nId ∧ s.newEntries[j]? = some ⟨nId, info⟩ ∧
        slot = info.newSlotIn hashLow64 s.nKey slot.1 ∧ info.fInTried = false := by
    intro slot j here
    obtain ⟨nId, stands, index⟩ := Option.map_eq_some_iff.mp here
    obtain ⟨info, j', member, own, isNew⟩ := tracked.numbered stands
    rw [numbers j' _ member, Option.getD_some] at index
    subst index
    exact ⟨nId, info, stands, member, own, isNew⟩
  refine ⟨fun slot j here => ?_, fun slot j here => ?_, fun j => ?_⟩
  · obtain ⟨_, _, -, member, -⟩ := entry here
    have below := (List.getElem?_eq_some_iff.mp member).1
    exact ⟨by exact_mod_cast below, by omega⟩
  · obtain ⟨nId, info, -, member, own, isNew⟩ := entry here
    have below := (List.getElem?_eq_some_iff.mp member).1
    refine ⟨info, ?_, isNew, own⟩
    rw [List.getElem?_append_left (by simpa using below), List.getElem?_map, member]
    rfl
  by_cases stands : ∃ slot, s.tableOf mapUnkIds slot = some j
  · obtain ⟨slot, here⟩ := stands
    obtain ⟨nId, info, there, member, -⟩ := entry here
    obtain ⟨info', found, -⟩ := tracked.newSlot slot nId there
    refine Nat.le_trans (countP_mono_left fun i _ holds => ?_)
      (tracked.inPlace nId info' found).few
    obtain ⟨nId', info'', there', member', -⟩ := entry (of_decide_eq_true holds)
    rw [member] at member'
    obtain rfl : nId = nId' := congrArg Sigma.fst (Option.some.inj member')
    exact decide_eq_true there'
  · have nowhere : held newSlots (s.tableOf mapUnkIds) j = 0 :=
      SlotTable.held_eq_zero_iff.mpr fun slot _ here => stands ⟨slot, here⟩
    rw [nowhere]
    exact Nat.zero_le _

section

variable (tracked : Tracked hashLow64 ∅ newAhead triedAhead s)
include tracked

theorem length_newEntries_le :
    s.newEntries.length ≤ 65536 := by
  have atMost := length_le_of_stands newSlots s.vvNew
    (nodup_fst_filter (s := s) fun e => e.2.nRefCount ≠ 0) (by
      intro nId member
      obtain ⟨e, inList, rfl⟩ := mem_map.mp member
      obtain ⟨found, isNew⟩ := tracked.newEntries_spec.mp inList
      have some_slot := (tracked.inPlace e.1 e.2 found).new isNew (Set.notMem_empty _)
      by_contra nowhere
      have none : held newSlots s.vvNew e.1 = 0 := SlotTable.held_eq_zero_iff.mpr
        fun slot member here => nowhere ⟨slot, member, here⟩
      omega)
  rw [length_map, length_newSlots] at atMost
  exact atMost

theorem length_triedEntries_le :
    s.triedEntries.length ≤ 16384 := by
  have atMost := length_le_of_stands triedSlots s.vvTried
    (nodup_fst_filter (s := s) fun e => e.2.fInTried) (by
      intro nId member
      obtain ⟨e, inList, rfl⟩ := mem_map.mp member
      obtain ⟨found, isTried⟩ := mem_triedEntries.mp inList
      exact ⟨_, mem_triedSlots _, ((tracked.inPlace e.1 e.2 found).tried isTried).2.1⟩)
  rw [length_map, length_triedSlots] at atMost
  exact atMost

/-- The slots of the entries of the "tried" table differ. -/
theorem nodup_triedSlot :
    ((s.triedEntries.map Sigma.snd).map fun info => info.triedSlot hashLow64 s.nKey).Nodup := by
  rw [map_map]
  refine List.Nodup.map_on ?_ (List.Nodup.filter _
    (List.Nodup.of_map Sigma.fst s.mapInfo.nodup_keys_inOrder))
  intro e member e' member' equal
  obtain ⟨found, isTried⟩ := mem_triedEntries.mp member
  obtain ⟨found', isTried'⟩ := mem_triedEntries.mp member'
  have here := ((tracked.inPlace e.1 e.2 found).tried isTried).2.1
  have there := ((tracked.inPlace e'.1 e'.2 found').tried isTried').2.1
  rw [show e.2.triedSlot hashLow64 s.nKey = e'.2.triedSlot hashLow64 s.nKey from equal,
    there] at here
  have number := Option.some.inj here
  rw [number, found] at found'
  exact Sigma.ext number.symm (heq_of_eq (Option.some.inj found'))

/-- The last success of an entry of the "tried" table is positive. -/
theorem lastSuccess_pos (member : e ∈ s.triedEntries) :
    e.2.fInTried = true ∧ 0 < e.2.nLastSuccess := by
  obtain ⟨found, isTried⟩ := mem_triedEntries.mp member
  have place := tracked.inPlace e.1 e.2 found
  have nonzero := (place.tried isTried).2.2
  have nonneg := place.times.2
  refine ⟨isTried, ?_⟩
  rw [Int64.lt_iff_toInt_lt]
  rw [Int64.le_iff_toInt_le] at nonneg
  rcases Int.lt_or_eq_of_le nonneg with positive | zero
  · exact positive
  · exact absurd (Int64.toInt_inj.mp zero.symm) nonzero

theorem stands_of_new {k : Nat} {stored : CAddrInfo} {mapUnkIds : AssocMap Nat Nat}
    (here : (s.newEntries.map Sigma.snd ++ s.triedEntries.map Sigma.snd)[k]? = some stored)
    (isNew : stored.fInTried = false)
    (numbers : ∀ (j : Nat) (e : Sigma fun _ : Nat => CAddrInfo), s.newEntries[j]? = some e →
      mapUnkIds.lookup e.1 = some j)
    :
    ∃ slot, s.tableOf mapUnkIds slot = some k := by
  rw [List.getElem?_append] at here
  split at here
  · rw [List.getElem?_map] at here
    obtain ⟨e, member, rfl⟩ := Option.map_eq_some_iff.mp here
    have found := (tracked.newEntries_spec.mp (mem_of_getElem? member)).1
    have some_slot := (tracked.inPlace e.1 e.2 found).new isNew (Set.notMem_empty _)
    by_contra nowhere
    have none : held newSlots s.vvNew e.1 = 0 := held_eq_zero_iff.mpr fun slot stands =>
      nowhere ⟨slot, by rw [tableOf, stands, Option.map_some, numbers k e member]; rfl⟩
    omega
  · obtain ⟨e, member, rfl⟩ := mem_map.mp (mem_of_getElem? here)
    rw [(mem_triedEntries.mp member).2] at isNew
    cases isNew

/-- A tracked state that holds the entries of another knows the same addresses. -/
theorem find_of_holds (tracked' : Tracked hashLow64 ∅ newAhead triedAhead s')
    (holds : s'.Holds (s.newEntries.map Sigma.snd ++ s.triedEntries.map Sigma.snd))
    (addr : CNetAddr) : (s'.find addr).map (fun found => found.2.onDisk) =
      (s.find addr).map fun found => found.2.onDisk := by
  rw [← map_append] at holds
  cases known : s.find addr with
  | some found =>
    obtain ⟨nId, info⟩ := found
    obtain ⟨entry, ip⟩ := tracked.find_iff.mp known
    obtain ⟨k, below, member⟩ := getElem_of_mem (tracked.mem_both.mpr
      (show s.mapInfo.lookup (⟨nId, info⟩ : Sigma fun _ => _).1 =
        some (⟨nId, info⟩ : Sigma fun _ : Nat => CAddrInfo).2 from entry))
    have here : ((s.newEntries ++ s.triedEntries).map Sigma.snd)[k]? = some info := by
      rw [List.getElem?_map, List.getElem?_eq_getElem below, member]
      rfl
    obtain ⟨info', found', disk⟩ := holds.lookup here
    rw [tracked'.find_iff.mpr ⟨found', by rw [service_of_onDisk disk, ip]⟩]
    exact congrArg some disk
  | none =>
    cases known' : s'.find addr with
    | none => rfl
    | some found =>
      obtain ⟨entry, ip⟩ := tracked'.find_iff.mp known'
      obtain ⟨stored, here, disk⟩ := holds.getElem? entry
      obtain ⟨e, member, rfl⟩ := mem_map.mp (mem_of_getElem? here)
      rw [tracked.find_iff.mpr ⟨tracked.mem_both.mp member, by
        rw [service_of_onDisk disk, ip]⟩] at known
      cases known

end

/-- As many numbers as there are slots: a restart gives no more. -/
abbrev reloadedIds : Nat := 65536 + 16384

/-- What is written in a tracked state is read back in a new address manager: the state is tracked
and knows the same addresses. -/
theorem reload (tracked : Tracked hashLow64 ∅ 0 0 s) (nVersion : Int32) (nKey : UInt256) :
    ∃ bytes, s.serialize nVersion = some bytes ∧ ∀ rest, ∃ s',
      (init nKey).unserialize hashLow64 nKey (bytes ++ rest) = some (s', rest) ∧
      Tracked hashLow64 ∅ 0 0 s' ∧ s'.nKey = s.nKey ∧ s'.nIdCount ≤ reloadedIds ∧
      ∀ addr, (s'.find addr).map (fun found => found.2.onDisk) =
        (s.find addr).map fun found => found.2.onDisk := by
  have nNew := tracked.length_newEntries
  have nTried := tracked.length_triedEntries
  have fewNew := tracked.length_newEntries_le
  have fewTried := tracked.length_triedEntries_le
  have smallNew : s.newEntries.length < 2 ^ 31 := Nat.lt_of_le_of_lt fewNew (by decide)
  have smallTried : s.triedEntries.length < 2 ^ 31 := Nat.lt_of_le_of_lt fewTried (by decide)
  obtain ⟨mapUnkIds, writtenNew, numbers, -⟩ := serializeNew_eq nVersion s.nNew s.mapInfo.inOrder
    s.mapInfo.nodup_keys_inOrder 0 ∅ (by
      rw [← nNew]
      exact Int.le_of_eq (Int.zero_add _))
  have writtenTried := serializeTried_eq nVersion s.nTried s.mapInfo.inOrder 0 (by
      rw [← nTried]
      exact Int.le_of_eq (Int.zero_add _))
  have numbers : ∀ (j : Nat) (e : Sigma fun _ : Nat => CAddrInfo), s.newEntries[j]? = some e →
      mapUnkIds.lookup e.1 = some j := by
    intro j e member
    rw [numbers j e member, Nat.zero_add]
  have fits := tracked.fits numbers smallNew
  have flat : ∀ l : List (Sigma fun _ : Nat => CAddrInfo),
      (l.flatMap fun e => e.2.serialize nVersion) =
        (l.map Sigma.snd).flatMap (CAddrInfo.serialize nVersion) := fun l =>
    (flatMap_map ..).symm
  refine ⟨_, by rw [serialize, writtenNew, writtenTried], fun rest => ?_⟩
  let header : Header := ⟨1, s.nKey, s.newEntries.length, s.triedEntries.length,
    ADDRMAN_NEW_BUCKET_COUNT⟩
  have usable : header.usable = true := rfl
  let s₀ : CAddrMan := { (init nKey).clear nKey with
    nKey := s.nKey, nNew := s.newEntries.length, nTried := s.triedEntries.length }
  have started : Loading hashLow64 [] s.newEntries.length s.triedEntries.length
      { s₀ with nIdCount := 0 } := by
    refine ⟨⟨⟨nofun, ?_, ?_⟩, nofun, nofun, nofun, ?_, ?_⟩, fun _ => rfl, rfl⟩
    · exact fun _ _ => ⟨nofun, nofun⟩
    · intro k p
      constructor
      · nofun
      · rintro ⟨i, -, here⟩
        cases here
    · exact (Int.zero_add _).symm
    · exact (Int.zero_add _).symm
  -- the entries of the "new" table
  obtain ⟨s₁, readNew, loading₁, same₁⟩ := readNew_eq usable nVersion
    (s.triedEntries.flatMap (fun e => e.2.serialize nVersion) ++
      ((List.finRange ADDRMAN_NEW_BUCKET_COUNT).flatMap (s.serializeBucket mapUnkIds) ++ rest))
    (s.newEntries.map Sigma.snd) [] started
    (by rw [nil_append, length_map]; omega)
    (by
      have all := tracked.nodup_addresses
      rw [map_append] at all
      exact (nodup_append.mp all).1)
    (by
      intro info member
      obtain ⟨e, inList, rfl⟩ := mem_map.mp member
      obtain ⟨found, isNew⟩ := tracked.newEntries_spec.mp inList
      exact ⟨isNew, (tracked.inPlace e.1 e.2 found).times.2⟩)
  rw [nil_append, length_map, Int.sub_self] at loading₁
  -- the entries of the "tried" table
  obtain ⟨s₃, readTried, loading₃, nKey₃, vvNew₃, nNew₃⟩ := readTried_eq nVersion
    ((List.finRange ADDRMAN_NEW_BUCKET_COUNT).flatMap (s.serializeBucket mapUnkIds) ++ rest)
    (s.triedEntries.map Sigma.snd) (s.newEntries.map Sigma.snd) loading₁
    (by rw [length_append, length_map, length_map]; omega) tracked.nodup_addresses
    (by
      intro info member
      obtain ⟨e, inList, rfl⟩ := mem_map.mp member
      exact tracked.lastSuccess_pos inList)
    (by
      have key : s₁.nKey = s.nKey := same₁.nKey
      rw [key]
      exact tracked.nodup_triedSlot)
    (by
      intro info _
      rw [same₁.vvTried]
      rfl)
  rw [length_map, Int.sub_self] at loading₃
  -- the buckets
  have key₃ : s₃.nKey = s.nKey := nKey₃.trans same₁.nKey
  have count₃ : s₃.nNew = s.newEntries.length := nNew₃.trans same₁.nNew
  have empty₃ : ∀ slot, s₃.vvNew slot = none := by
    intro slot
    rw [vvNew₃]
    rw [same₁.vvNew]
    rfl
  obtain ⟨s₄, readBuckets, filling₄, filled, -, nKey₄⟩ := readBuckets_eq usable
    mapUnkIds s rest (List.finRange ADDRMAN_NEW_BUCKET_COUNT) 0
    (by rw [map_coe_finRange_eq_range, length_finRange, range_eq_range'])
    ⟨loading₃, fun slot nId here => by rw [empty₃] at here; cases here⟩
    (by rw [key₃, count₃]; exact fits) (fun slot _ => empty₃ slot)
  have tracked₄ : Tracked hashLow64 ∅ 0 0 s₄ := by
    refine filling₄.tracked.settleAll fun k info found isNew => ?_
    obtain ⟨stored, here, disk⟩ := filling₄.holds.getElem? found
    obtain ⟨slot, stands⟩ := tracked.stands_of_new here
      ((eq_of_onDisk disk (fun info => info.fInTried) fun _ => rfl).trans isNew) numbers
    exact held_pos (mem_newSlots slot) ((filled slot (mem_finRange _)).trans stands)
  have pruned : prune s₄.mapInfo.inOrder s₄ = some s₄ := by
    apply prune_eq
    rintro e member ⟨isNew, noRefs⟩
    have found := mem_inOrder.mp member
    exact (tracked₄.nRefCount_ne_zero_iff found).mpr isNew noRefs
  refine ⟨s₄, ?_, tracked₄, ?_, ?_, fun addr => tracked.find_of_holds tracked₄ filling₄.holds addr⟩
  · rw [length_map, ← flat] at readNew
    rw [length_map, ← flat] at readTried
    rw [length_finRange] at readBuckets
    refine unserialize_of_steps ?_ readNew readTried readBuckets pruned
    rw [← nNew, ← nTried]
    have read := readHeader_eq s.nKey smallNew smallTried
      (s.newEntries.flatMap (fun e => e.2.serialize nVersion) ++
        (s.triedEntries.flatMap (fun e => e.2.serialize nVersion) ++
          ((List.finRange ADDRMAN_NEW_BUCKET_COUNT).flatMap (s.serializeBucket mapUnkIds) ++ rest)))
    simp only [append_assoc] at read ⊢
    exact read
  · exact nKey₄.trans key₃
  · rw [filling₄.next, length_append, length_map, length_map]
    exact Nat.add_le_add fewNew fewTried

end Tracked

end CAddrMan

end Esbcoin
