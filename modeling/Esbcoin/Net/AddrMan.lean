import Esbcoin.Lib.AssocMap
import Esbcoin.Lib.SlotTable
import Esbcoin.Lib.StepRun
import Esbcoin.Net.NetGroup
import Esbcoin.Serialize

/-!
# The address manager

`CAddrMan` (`src/addrman.h`, `src/addrman.cpp`): the addresses of peers under numbers, an index by
address, the numbers in random order, and two tables of buckets. The low 64 bits of the hash over
some bytes are a parameter (`hashLow64`). The source's random numbers and clock readings are
arguments of the operations. An assertion that fails is `none`; a slot that holds -1 is `none` in
its table.
-/

namespace Esbcoin

open Bytes

/-- `ADDRMAN_TRIED_BUCKET_COUNT` (`addrman.h:130`). -/
abbrev ADDRMAN_TRIED_BUCKET_COUNT : Nat := 256

/-- `ADDRMAN_NEW_BUCKET_COUNT` (`addrman.h:133`). -/
abbrev ADDRMAN_NEW_BUCKET_COUNT : Nat := 1024

instance : NeZero ADDRMAN_NEW_BUCKET_COUNT := ⟨by decide⟩

/-- `ADDRMAN_BUCKET_SIZE` (`addrman.h:136`). -/
abbrev ADDRMAN_BUCKET_SIZE : Nat := 64

/-- `ADDRMAN_TRIED_BUCKETS_PER_GROUP` (`addrman.h:139`). -/
abbrev ADDRMAN_TRIED_BUCKETS_PER_GROUP : Nat := 8

/-- `ADDRMAN_NEW_BUCKETS_PER_SOURCE_GROUP` (`addrman.h:142`). -/
abbrev ADDRMAN_NEW_BUCKETS_PER_SOURCE_GROUP : Nat := 64

/-- `ADDRMAN_NEW_BUCKETS_PER_ADDRESS` (`addrman.h:145`). -/
abbrev ADDRMAN_NEW_BUCKETS_PER_ADDRESS : Nat := 8

/-- `ADDRMAN_HORIZON_DAYS` (`addrman.h:148`). -/
abbrev ADDRMAN_HORIZON_DAYS : Int := 30

/-- `ADDRMAN_RETRIES` (`addrman.h:151`). -/
abbrev ADDRMAN_RETRIES : Int := 3

/-- `ADDRMAN_MAX_FAILURES` (`addrman.h:154`). -/
abbrev ADDRMAN_MAX_FAILURES : Int := 10

/-- `ADDRMAN_MIN_FAIL_DAYS` (`addrman.h:157`). -/
abbrev ADDRMAN_MIN_FAIL_DAYS : Int := 7

/-- `ADDRMAN_GETADDR_MAX_PCT` (`addrman.h:160`). -/
abbrev ADDRMAN_GETADDR_MAX_PCT : Nat := 23

/-- `ADDRMAN_GETADDR_MAX` (`addrman.h:163`). -/
abbrev ADDRMAN_GETADDR_MAX : Nat := 2500

/-- A bucket of the "new" table and a position in it. -/
abbrev NewSlot := Fin ADDRMAN_NEW_BUCKET_COUNT × Fin ADDRMAN_BUCKET_SIZE

/-- A bucket of the "tried" table and a position in it. -/
abbrev TriedSlot := Fin ADDRMAN_TRIED_BUCKET_COUNT × Fin ADDRMAN_BUCKET_SIZE

/-- `CAddress` (`protocol.h:90-123`). -/
structure CAddress where
  service : CService
  nServices : UInt64
  nTime : UInt32
  nLastTry : Int64
deriving DecidableEq, Repr

/-- `CAddress()` (`protocol.cpp:80-96`). -/
def CAddress.init : CAddress := ⟨⟨Vector.replicate 16 0, 0⟩, 1, 100000000, 0⟩

/-- `CAddrInfo` (`addrman.h:23-101`). -/
structure CAddrInfo extends CAddress where
  source : CNetAddr
  nLastSuccess : Int64
  nAttempts : Int32
  nRefCount : Int
  fInTried : Bool
  nRandomPos : Int
deriving DecidableEq, Repr

namespace CAddrInfo

/-- `CAddrInfo(addrIn, addrSource)` with `Init` (`addrman.h:61-74`). -/
def init (addrIn : CAddress) (addrSource : CNetAddr) : CAddrInfo where
  toCAddress := { addrIn with nLastTry := 0 }
  source := addrSource
  nLastSuccess := 0
  nAttempts := 0
  nRefCount := 0
  fInTried := false
  nRandomPos := -1

/-- `operator!=` against another service (`netbase.cpp:1181-1184`). -/
def isService (info : CAddrInfo) (addr : CService) : Bool := info.service == addr

variable (hashLow64 : List UInt8 → UInt64) (nKey : UInt256) (info : CAddrInfo)

/-- `CAddrInfo::GetTriedBucket` (`addrman.cpp:13-18`). -/
def getTriedBucket : Fin ADDRMAN_TRIED_BUCKET_COUNT :=
  let hash1 := (hashLow64 (littleEndian 32 nKey.toNat ++ sizedBytes info.service.getKey)).toNat
  let hash2 := hashLow64 (littleEndian 32 nKey.toNat ++
    sizedBytes (CNetAddr.getGroup info.service.ip) ++
    littleEndian 8 (hash1 % ADDRMAN_TRIED_BUCKETS_PER_GROUP))
  Fin.ofNat _ hash2.toNat

/-- `CAddrInfo::GetNewBucket` (`addrman.cpp:20-26`). -/
def getNewBucket (src : CNetAddr) : Fin ADDRMAN_NEW_BUCKET_COUNT :=
  let vchSourceGroupKey := CNetAddr.getGroup src
  let hash1 := (hashLow64 (littleEndian 32 nKey.toNat ++
    sizedBytes (CNetAddr.getGroup info.service.ip) ++ sizedBytes vchSourceGroupKey)).toNat
  let hash2 := hashLow64 (littleEndian 32 nKey.toNat ++ sizedBytes vchSourceGroupKey ++
    littleEndian 8 (hash1 % ADDRMAN_NEW_BUCKETS_PER_SOURCE_GROUP))
  Fin.ofNat _ hash2.toNat

/-- `CAddrInfo::GetBucketPosition` (`addrman.cpp:28-32`). -/
def getBucketPosition (fNew : Bool) (nBucket : Nat) : Fin ADDRMAN_BUCKET_SIZE :=
  let hash1 := hashLow64 (littleEndian 32 nKey.toNat ++ [if fNew then 78 else 75] ++
    littleEndian 4 nBucket ++ sizedBytes info.service.getKey)
  Fin.ofNat _ hash1.toNat

/-- The slot of a bucket of the "new" table that the entry may stand in. -/
def newSlotIn (nUBucket : Fin ADDRMAN_NEW_BUCKET_COUNT) : NewSlot :=
  (nUBucket, info.getBucketPosition hashLow64 nKey true nUBucket)

/-- The slot of an address in the "tried" table. -/
def triedSlot : TriedSlot :=
  let nKBucket := info.getTriedBucket hashLow64 nKey
  (nKBucket, info.getBucketPosition hashLow64 nKey false nKBucket)

/-- `CAddrInfo::IsTerrible` (`addrman.cpp:34-52`). -/
def isTerrible (nNow : Int) : Bool :=
  if info.nLastTry ≠ 0 ∧ info.nLastTry.toInt ≥ nNow - 60 then false
  else if (info.nTime.toNat : Int) > nNow + 10 * 60 then true
  else if info.nTime = 0 ∨ nNow - info.nTime.toNat > ADDRMAN_HORIZON_DAYS * 24 * 60 * 60 then true
  else if info.nLastSuccess = 0 ∧ info.nAttempts.toInt ≥ ADDRMAN_RETRIES then true
  else decide (nNow - info.nLastSuccess.toInt > ADDRMAN_MIN_FAIL_DAYS * 24 * 60 * 60 ∧
    info.nAttempts.toInt ≥ ADDRMAN_MAX_FAILURES)

end CAddrInfo

/-- `CAddrMan` (`addrman.h:168-199`). The number of an entry is an `int`, here its 32 bits. -/
structure CAddrMan where
  nKey : UInt256
  nIdCount : Nat
  mapInfo : AssocMap Nat CAddrInfo
  mapAddr : AssocMap CNetAddr Nat
  vRandom : List Nat
  nTried : Int
  vvTried : TriedSlot → Option Nat
  nNew : Int
  vvNew : NewSlot → Option Nat

namespace CAddrMan

/-- `CAddrMan()` with `Clear` (`addrman.h:428-451`); `nKey` is what `GetRandHash` gives. -/
def init (nKey : UInt256) : CAddrMan where
  nKey := nKey
  nIdCount := 0
  mapInfo := ∅
  mapAddr := ∅
  vRandom := []
  nTried := 0
  vvTried := fun _ => none
  nNew := 0
  vvNew := fun _ => none

/-- The slots of the "new" table. -/
def newSlots : List NewSlot :=
  List.finRange ADDRMAN_NEW_BUCKET_COUNT ×ˢ List.finRange ADDRMAN_BUCKET_SIZE

/-- The slots of the "tried" table. -/
def triedSlots : List TriedSlot :=
  List.finRange ADDRMAN_TRIED_BUCKET_COUNT ×ˢ List.finRange ADDRMAN_BUCKET_SIZE

/-- A write through a pointer to an entry. -/
def changeInfo (s : CAddrMan) (nId : Nat) (change : CAddrInfo → CAddrInfo) : CAddrMan :=
  { s with mapInfo := s.mapInfo.modify nId change }

/-- `CAddrMan::Find` (`addrman.cpp:76-87`). -/
def find (s : CAddrMan) (addr : CNetAddr) : Option (Nat × CAddrInfo) :=
  match s.mapAddr.lookup addr with
  | none => none
  | some nId => (s.mapInfo.lookup nId).map fun info => (nId, info)

/-- `nIdCount++` of 32 bits. -/
def nextId (nId : Nat) : Nat := (nId + 1) % 2 ^ 32

theorem nextId_of_lt {nId : Nat} (room : nId + 1 < 2 ^ 32) : nextId nId = nId + 1 :=
  Nat.mod_eq_of_lt room

/-- An entry gets the next number, its index and the last place in the vector. -/
def enlist (s : CAddrMan) (info : CAddrInfo) : CAddrMan :=
  { s with
    nIdCount := nextId s.nIdCount
    mapInfo := s.mapInfo.insert s.nIdCount { info with nRandomPos := s.vRandom.length }
    mapAddr := s.mapAddr.insert info.service.ip s.nIdCount
    vRandom := s.vRandom ++ [s.nIdCount] }

/-- `CAddrMan::Create` (`addrman.cpp:89-99`); the number it gives is `nIdCount`. -/
def create (s : CAddrMan) (addr : CAddress) (addrSource : CNetAddr) : CAddrMan :=
  s.enlist (CAddrInfo.init addr addrSource)

/-- `CAddrMan::SwapRandom` (`addrman.cpp:101-119`). -/
def swapRandom (s : CAddrMan) (nRndPos1 nRndPos2 : Nat) : Option CAddrMan :=
  if nRndPos1 = nRndPos2 then some s
  else
    match s.vRandom[nRndPos1]?, s.vRandom[nRndPos2]? with
    | some nId1, some nId2 =>
      if s.mapInfo.contains nId1 && s.mapInfo.contains nId2 then
        some { s with
          mapInfo := (s.mapInfo.modify nId1 fun info => { info with nRandomPos := nRndPos2 }).modify
            nId2 fun info => { info with nRandomPos := nRndPos1 }
          vRandom := (s.vRandom.set nRndPos1 nId2).set nRndPos2 nId1 }
      else none
    | _, _ => none

/-- `CAddrMan::Delete` (`addrman.cpp:121-133`). A negative position becomes an `unsigned` behind
every vector, and so does the last position of an empty vector. -/
def delete (s : CAddrMan) (nId : Nat) : Option CAddrMan :=
  match s.mapInfo.lookup nId with
  | none => none
  | some info =>
    if info.fInTried ∨ info.nRefCount ≠ 0 ∨ info.nRandomPos < 0 ∨ s.vRandom = [] then none
    else
      (s.swapRandom info.nRandomPos.toNat (s.vRandom.length - 1)).map fun s =>
        { s with
          vRandom := s.vRandom.dropLast
          mapAddr := s.mapAddr.erase info.service.ip
          mapInfo := s.mapInfo.erase nId
          nNew := s.nNew - 1 }

/-- Takes an entry out of a "new" slot. -/
def leaveNew (s : CAddrMan) (slot : NewSlot) (nId : Nat) : CAddrMan :=
  { s with
    mapInfo := s.mapInfo.modify nId fun info => { info with nRefCount := info.nRefCount - 1 }
    vvNew := Function.update s.vvNew slot none }

/-- Puts an entry into a "new" slot. -/
def enterNew (s : CAddrMan) (slot : NewSlot) (nId : Nat) : CAddrMan :=
  { s with
    mapInfo := s.mapInfo.modify nId fun info => { info with nRefCount := info.nRefCount + 1 }
    vvNew := Function.update s.vvNew slot (some nId) }

/-- Takes an entry out of its "tried" slot. -/
def leaveTried (s : CAddrMan) (slot : TriedSlot) (nId : Nat) : CAddrMan :=
  { s with
    mapInfo := s.mapInfo.modify nId fun info => { info with fInTried := false }
    vvTried := Function.update s.vvTried slot none
    nTried := s.nTried - 1 }

/-- Puts an entry into its "tried" slot. -/
def enterTried (s : CAddrMan) (slot : TriedSlot) (nId : Nat) : CAddrMan :=
  { s with
    mapInfo := s.mapInfo.modify nId fun info => { info with fInTried := true }
    vvTried := Function.update s.vvTried slot (some nId)
    nTried := s.nTried + 1 }

/-- `CAddrMan::ClearNew` (`addrman.cpp:135-148`). -/
def clearNew (s : CAddrMan) (slot : NewSlot) : Option CAddrMan :=
  match s.vvNew slot with
  | none => some s
  | some nIdDelete =>
    match s.mapInfo.lookup nIdDelete with
    | none => none
    | some infoDelete =>
      if infoDelete.nRefCount > 0 then
        if infoDelete.nRefCount - 1 = 0 then (s.leaveNew slot nIdDelete).delete nIdDelete
        else some (s.leaveNew slot nIdDelete)
      else none

variable (hashLow64 : List UInt8 → UInt64)

/-- The loop of `MakeTried` over the buckets of the "new" table (`addrman.cpp:152-159`). -/
def leaveBuckets (s : CAddrMan) (info : CAddrInfo) (nId : Nat)
    (buckets : List (Fin ADDRMAN_NEW_BUCKET_COUNT)) : CAddrMan :=
  buckets.foldl (fun s bucket =>
    let slot := info.newSlotIn hashLow64 s.nKey bucket
    if s.vvNew slot = some nId then s.leaveNew slot nId else s) s

/-- The entry in a slot of the "tried" table goes back to the "new" table
(`addrman.cpp:168-190`). -/
def evictTried (s : CAddrMan) (slot : TriedSlot) : Option CAddrMan :=
  match s.vvTried slot with
  | none => some s
  | some nIdEvict =>
    match s.mapInfo.lookup nIdEvict with
    | none => none
    | some infoOld =>
      let s := s.leaveTried slot nIdEvict
      let uslot := infoOld.newSlotIn hashLow64 s.nKey
        (infoOld.getNewBucket hashLow64 s.nKey infoOld.source)
      match s.clearNew uslot with
      | none => none
      | some s =>
        if s.vvNew uslot = none then
          some { s.changeInfo nIdEvict fun info => { info with nRefCount := 1 } with
            vvNew := Function.update s.vvNew uslot (some nIdEvict)
            nNew := s.nNew + 1 }
        else none

/-- `CAddrMan::MakeTried` (`addrman.cpp:150-196`). -/
def makeTried (s : CAddrMan) (info : CAddrInfo) (nId : Nat) : Option CAddrMan :=
  let s := s.leaveBuckets hashLow64 info nId (List.finRange ADDRMAN_NEW_BUCKET_COUNT)
  let s := { s with nNew := s.nNew - 1 }
  match s.mapInfo.lookup nId with
  | none => none
  | some left =>
    if left.nRefCount ≠ 0 then none
    else
      let slot := info.triedSlot hashLow64 s.nKey
      match s.evictTried hashLow64 slot with
      | none => none
      | some s =>
        if s.vvTried slot = none then some (s.enterTried slot nId) else none

/-- `CAddrMan::Good_` (`addrman.cpp:198-245`); `nRnd` is the random number. -/
def good (s : CAddrMan) (addr : CService) (nTime : Int64) (nRnd : Nat) : Option CAddrMan :=
  match s.find addr.ip with
  | none => some s
  | some (nId, info) =>
    if !info.isService addr then some s
    else
      let s := s.changeInfo nId fun info =>
        { info with nLastSuccess := nTime, nLastTry := nTime, nAttempts := 0 }
      if info.fInTried then some s
      else
        let nUBucket := (List.range ADDRMAN_NEW_BUCKET_COUNT).find? fun n =>
          let nB := Fin.ofNat ADDRMAN_NEW_BUCKET_COUNT (n + nRnd % ADDRMAN_NEW_BUCKET_COUNT)
          s.vvNew (info.newSlotIn hashLow64 s.nKey nB) == some nId
        if nUBucket.isNone then some s else s.makeTried hashLow64 info nId

/-- What the operations that add an address draw: the clock at its two readings and the random
number. -/
structure AddDraws where
  nNow : Int
  nLater : Int
  nRnd : Nat

/-- The end of `Add_` (`addrman.cpp:290-312`): the entry goes to the bucket of its source. -/
def addToBucket (s : CAddrMan) (nId : Nat) (source : CNetAddr) (nLater : Int) : Option CAddrMan :=
  match s.mapInfo.lookup nId with
  | none => none
  | some info =>
    let slot := info.newSlotIn hashLow64 s.nKey (info.getNewBucket hashLow64 s.nKey source)
    match s.vvNew slot with
    | none => some (s.enterNew slot nId)
    | some existing =>
      if existing = nId then some s
      else
        match s.mapInfo.lookup existing with
        | none => none
        | some infoExisting =>
          if infoExisting.isTerrible nLater ∨ (infoExisting.nRefCount > 1 ∧ info.nRefCount = 0) then
            (s.clearNew slot).map fun s => s.enterNew slot nId
          else if info.nRefCount = 0 then s.delete nId
          else some s

/-- What `Add_` writes into an entry that is there already (`addrman.cpp:257-264`). -/
def CAddrInfo.refresh (addr : CAddress) (nTimePenalty nNow : Int) (info : CAddrInfo) : CAddrInfo :=
  let fCurrentlyOnline := nNow - addr.nTime.toNat < 24 * 60 * 60
  let nUpdateInterval : Int := if fCurrentlyOnline then 60 * 60 else 24 * 60 * 60
  let nTime :=
    if addr.nTime ≠ 0 ∧ (info.nTime = 0 ∨
        (info.nTime.toNat : Int) < addr.nTime.toNat - nUpdateInterval - nTimePenalty) then
      UInt32.ofInt (max 0 (addr.nTime.toNat - nTimePenalty))
    else info.nTime
  { info with nTime := nTime, nServices := info.nServices ||| addr.nServices }

/-- The reasons to leave an entry that is there already where it is (`addrman.cpp:266-283`). -/
def CAddrInfo.stays (addr : CAddress) (nRnd : Nat) (info : CAddrInfo) : Bool :=
  addr.nTime == 0 || (info.nTime != 0 && addr.nTime ≤ info.nTime) || info.fInTried ||
    info.nRefCount == ADDRMAN_NEW_BUCKETS_PER_ADDRESS ||
    (let nFactor := 2 ^ info.nRefCount.toNat
     decide (nFactor > 1) && nRnd % nFactor != 0)

/-- `CAddrMan::Add_` (`addrman.cpp:247-313`). -/
def add (s : CAddrMan) (addr : CAddress) (source : CNetAddr) (nTimePenalty : Int)
    (draws : AddDraws) : Option (Bool × CAddrMan) :=
  if !CNetAddr.isRoutable addr.service.ip then some (false, s)
  else
    match s.find addr.service.ip with
    | some (nId, info) =>
      let s := s.changeInfo nId (CAddrInfo.refresh addr nTimePenalty draws.nNow)
      if CAddrInfo.stays addr draws.nRnd (CAddrInfo.refresh addr nTimePenalty draws.nNow info) then
        some (false, s)
      else (s.addToBucket hashLow64 nId source draws.nLater).map fun s => (false, s)
    | none =>
      let nId := s.nIdCount
      let s := (s.create addr source).changeInfo nId fun info =>
        { info with nTime := UInt32.ofInt (max 0 (info.nTime.toNat - nTimePenalty)) }
      let s := { s with nNew := s.nNew + 1 }
      (s.addToBucket hashLow64 nId source draws.nLater).map fun s => (true, s)

/-- `CAddrMan::Attempt_` (`addrman.cpp:315-332`). -/
def attempt (s : CAddrMan) (addr : CService) (nTime : Int64) : CAddrMan :=
  match s.find addr.ip with
  | none => s
  | some (nId, info) =>
    if !info.isService addr then s
    else s.changeInfo nId fun info =>
      { info with nLastTry := nTime, nAttempts := info.nAttempts + 1 }

/-- `CAddrMan::Connected_` (`addrman.cpp:477-495`). -/
def connected (s : CAddrMan) (addr : CService) (nTime : Int64) : CAddrMan :=
  match s.find addr.ip with
  | none => s
  | some (nId, info) =>
    if !info.isService addr then s
    else s.changeInfo nId fun info =>
      if nTime.toInt - info.nTime.toNat > 20 * 60 then
        { info with nTime := UInt32.ofInt nTime.toInt } else info

/-- What one turn of the loops of `Select_` draws. Whether the entry is taken depends on a random
number and, in floating point, on `GetChance` (`addrman.cpp:54-74`). -/
structure SelectDraw where
  nBucket : Nat
  nBucketPos : Nat
  taken : Bool

/-- The loops of `Select_` (`addrman.cpp:343-355`, `:358-370`) over one of the tables; the inner
`none` says that the loop still turns when the draws are used up. -/
def selectFrom {buckets : Nat} [NeZero buckets] (s : CAddrMan)
    (table : Fin buckets × Fin ADDRMAN_BUCKET_SIZE → Option Nat) :
    List SelectDraw → Option (Option CAddress)
  | [] => some none
  | draw :: draws =>
    match table (Fin.ofNat _ draw.nBucket, Fin.ofNat _ draw.nBucketPos) with
    | none => selectFrom s table draws
    | some nId =>
      match s.mapInfo.lookup nId with
      | none => none
      | some info => if draw.taken then some (some info.toCAddress) else selectFrom s table draws

/-- `CAddrMan::Select_` (`addrman.cpp:334-371`); `fTried` is the outcome of its first draw. -/
def select (s : CAddrMan) (fTried : Bool) (draws : List SelectDraw) : Option (Option CAddress) :=
  if s.vRandom.length = 0 then some (some CAddress.init)
  else if s.nTried > 0 ∧ (s.nNew = 0 ∨ fTried) then s.selectFrom s.vvTried draws
  else s.selectFrom s.vvNew draws

/-- The loop of `GetAddr_` (`addrman.cpp:462-474`) from position `n` on. -/
def getAddrFrom (nNodes : Nat) (nRnd : Nat → Nat) (nNow : Nat → Int) :
    Nat → Nat → CAddrMan → List CAddress → Option (List CAddress × CAddrMan)
  | 0, _, s, vAddr => some (vAddr, s)
  | left + 1, n, s, vAddr =>
    if vAddr.length ≥ nNodes then some (vAddr, s)
    else
      match s.swapRandom n (nRnd n % (s.vRandom.length - n) + n) with
      | none => none
      | some s =>
        match s.vRandom[n]?.bind s.mapInfo.lookup with
        | none => none
        | some ai =>
          getAddrFrom nNodes nRnd nNow left (n + 1) s
            (if ai.isTerrible (nNow n) then vAddr else vAddr ++ [ai.toCAddress])

/-- `CAddrMan::GetAddr_` (`addrman.cpp:451-475`). -/
def getAddr (s : CAddrMan) (nRnd : Nat → Nat) (nNow : Nat → Int) :
    Option (List CAddress × CAddrMan) :=
  let nNodes := ADDRMAN_GETADDR_MAX_PCT * s.vRandom.length / 100
  let nNodes := if nNodes < 100 / ADDRMAN_GETADDR_MAX_PCT then 100 / ADDRMAN_GETADDR_MAX_PCT
    else nNodes
  let nNodes := if nNodes > ADDRMAN_GETADDR_MAX then ADDRMAN_GETADDR_MAX else nNodes
  getAddrFrom nNodes nRnd nNow s.vRandom.length 0 s []

end CAddrMan

end Esbcoin
