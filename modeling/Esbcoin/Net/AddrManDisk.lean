import Esbcoin.Net.AddrManCheck

/-!
# The address manager on disk

`CAddrMan::Serialize` and `CAddrMan::Unserialize` (`src/addrman.h:244-421`) on a stream of the type
`SER_DISK`, as `CAddrDB` uses them (`src/net.cpp:1842-1929`). The number of buckets is written with
bit 30 flipped. What the reader cannot use, because the version or the number of buckets is
another, it puts together again from the entries. A number of entries below zero, which no writer
gives, is read as zero.
-/

namespace Esbcoin

open Bytes

/-- `CNetAddr` of 16 bytes (`netbase.h:94-98`). -/
def CNetAddr.ofBytes (bytes : List UInt8) : CNetAddr := Vector.ofFn fun i => bytes.getD i 0

namespace CAddrInfo

/-- `CAddrInfo::SerializationOp` (`addrman.h:53-59`) with that of `CAddress` (`protocol.h:102-113`)
and `CService` (`netbase.h:168-175`), when it writes; `nVersion` is the version of the stream. -/
def serialize (nVersion : Int32) (info : CAddrInfo) : List UInt8 :=
  signedBytes 4 nVersion.toInt ++ littleEndian 4 info.nTime.toNat ++
    littleEndian 8 info.nServices.toNat ++ info.service.ip.toList ++
      (littleEndian 2 info.service.port.toNat).reverse ++ info.source.toList ++
        signedBytes 8 info.nLastSuccess.toInt ++ signedBytes 4 info.nAttempts.toInt

/-- The same operation when it reads onto an entry. -/
def unserialize (info : CAddrInfo) (s : List UInt8) : Option (CAddrInfo × List UInt8) := do
  let (_, s) ← readSigned 4 s
  let (nTime, s) ← readUnsigned 4 s
  let (nServices, s) ← readUnsigned 8 s
  let (ip, s) ← takeBytes 16 s
  let (portN, s) ← takeBytes 2 s
  let (source, s) ← takeBytes 16 s
  let (nLastSuccess, s) ← readSigned 8 s
  let (nAttempts, s) ← readSigned 4 s
  some ({ info with
    service := ⟨CNetAddr.ofBytes ip, UInt16.ofNat (ofLittleEndian portN.reverse)⟩
    nServices := UInt64.ofNat nServices
    nTime := UInt32.ofNat nTime
    nLastTry := 0
    source := CNetAddr.ofBytes source
    nLastSuccess := Int64.ofInt nLastSuccess
    nAttempts := Int32.ofInt nAttempts }, s)

end CAddrInfo

namespace CAddrMan

/-! ## Writing -/

/-- The loop over the entries of the "new" table (`addrman.h:291-299`): the bytes and
`mapUnkIds`. -/
def serializeNew (nVersion : Int32) (nNew : Int) : List (Sigma fun _ : Nat => CAddrInfo) → Nat →
    AssocMap Nat Nat → Option (List UInt8 × AssocMap Nat Nat)
  | [], _, mapUnkIds => some ([], mapUnkIds)
  | e :: entries, nIds, mapUnkIds =>
    let mapUnkIds := mapUnkIds.insert e.1 nIds
    if e.2.nRefCount ≠ 0 then
      if (nIds : Int) = nNew then none
      else
        (serializeNew nVersion nNew entries (nIds + 1) mapUnkIds).map fun rest =>
          (e.2.serialize nVersion ++ rest.1, rest.2)
    else serializeNew nVersion nNew entries nIds mapUnkIds

/-- The loop over the entries of the "tried" table (`addrman.h:301-308`). -/
def serializeTried (nVersion : Int32) (nTried : Int) :
    List (Sigma fun _ : Nat => CAddrInfo) → Nat → Option (List UInt8)
  | [], _ => some []
  | e :: entries, nIds =>
    if e.2.fInTried then
      if (nIds : Int) = nTried then none
      else
        (serializeTried nVersion nTried entries (nIds + 1)).map fun rest =>
          e.2.serialize nVersion ++ rest
    else serializeTried nVersion nTried entries nIds

/-- One bucket of the "new" table (`addrman.h:310-321`). -/
def serializeBucket (s : CAddrMan) (mapUnkIds : AssocMap Nat Nat)
    (bucket : Fin ADDRMAN_NEW_BUCKET_COUNT) : List UInt8 :=
  let ids := (List.finRange ADDRMAN_BUCKET_SIZE).filterMap fun i => s.vvNew (bucket, i)
  signedBytes 4 ids.length ++
    ids.flatMap fun nId => signedBytes 4 ((mapUnkIds.lookup nId).getD 0 : Nat)

/-- `1 << 30` (`addrman.h:287`). -/
def bit30 : Int32 := 0x40000000

/-- `CAddrMan::Serialize` (`addrman.h:276-323`). -/
def serialize (s : CAddrMan) (nVersion : Int32) : Option (List UInt8) :=
  match serializeNew nVersion s.nNew s.mapInfo.inOrder 0 ∅ with
  | none => none
  | some (newInfos, mapUnkIds) =>
    match serializeTried nVersion s.nTried s.mapInfo.inOrder 0 with
    | none => none
    | some triedInfos =>
      let nUBuckets := Int32.ofNat ADDRMAN_NEW_BUCKET_COUNT ^^^ bit30
      some ([1] ++ [32] ++ littleEndian 32 s.nKey.toNat ++ signedBytes 4 s.nNew ++
        signedBytes 4 s.nTried ++ signedBytes 4 nUBuckets.toInt ++ newInfos ++ triedInfos ++
        (List.finRange ADDRMAN_NEW_BUCKET_COUNT).flatMap (s.serializeBucket mapUnkIds))

/-! ## Reading -/

/-- `Clear` (`addrman.h:428-446`): everything but `mapInfo` and `mapAddr`; `nKey` is what
`GetRandHash` gives. -/
def clear (s : CAddrMan) (nKey : UInt256) : CAddrMan :=
  { s with
    nKey := nKey
    nIdCount := 0
    vRandom := []
    nTried := 0
    vvTried := fun _ => none
    nNew := 0
    vvNew := fun _ => none }

/-- What stands in front of the entries. -/
structure Header where
  nVersion : Nat
  nKey : UInt256
  nNew : Int
  nTried : Int
  nUBuckets : Int

/-- Can the buckets of the file be used? -/
def Header.usable (header : Header) : Bool :=
  header.nVersion == 1 && header.nUBuckets == ADDRMAN_NEW_BUCKET_COUNT

/-- The key size is checked before anything else is read (`addrman.h:334-336`). -/
def readKeySize (bytes : List UInt8) : Option (List UInt8) :=
  match readUnsigned 1 bytes with
  | none => none
  | some (nKeySize, bytes) => if nKeySize ≠ 32 then none else some bytes

/-- The start of `Unserialize` (`addrman.h:332-344`). -/
def readHeader (bytes : List UInt8) : Option (Header × List UInt8) := do
  let (nVersion, bytes) ← readUnsigned 1 bytes
  let bytes ← readKeySize bytes
  let (nKey, bytes) ← readUnsigned 32 bytes
  let (nNew, bytes) ← readSigned 4 bytes
  let (nTried, bytes) ← readSigned 4 bytes
  let (nUBuckets, bytes) ← readSigned 4 bytes
  let nUBuckets :=
    if nVersion ≠ 0 then (Int32.ofInt nUBuckets ^^^ bit30).toInt else nUBuckets
  some (⟨nVersion, BitVec.ofNat 256 nKey, nNew, nTried, nUBuckets⟩, bytes)

variable (hashLow64 : List UInt8 → UInt64)

/-- An entry of the "new" table is taken in under the number `n` (`addrman.h:348-362`). -/
def loadNew (header : Header) (s : CAddrMan) (n : Nat) (info : CAddrInfo) : CAddrMan :=
  let s := { s with
    mapInfo := s.mapInfo.insert n { info with nRandomPos := s.vRandom.length }
    mapAddr := s.mapAddr.insert info.service.ip n
    vRandom := s.vRandom ++ [n] }
  if header.usable then s
  else
    let slot := info.newSlotIn hashLow64 s.nKey (info.getNewBucket hashLow64 s.nKey info.source)
    if s.vvNew slot = none then s.enterNew slot n else s

/-- The loop over the entries of the "new" table (`addrman.h:346-363`) from the number `n` on. -/
def readNew (header : Header) :
    Nat → Nat → CAddrMan → List UInt8 → Option (CAddrMan × List UInt8)
  | 0, _, s, bytes => some (s, bytes)
  | left + 1, n, s, bytes =>
    match ((s.mapInfo.lookup n).getD .blank).unserialize bytes with
    | none => none
    | some (info, bytes) => readNew header left (n + 1) (s.loadNew hashLow64 header n info) bytes

/-- An entry of the "tried" table is taken in if its slot is free (`addrman.h:371-383`). -/
def loadTried (s : CAddrMan) (info : CAddrInfo) : CAddrMan :=
  let slot := info.triedSlot hashLow64 s.nKey
  if s.vvTried slot = none then
    { s with
      nIdCount := nextId s.nIdCount
      mapInfo := s.mapInfo.insert s.nIdCount
        { info with nRandomPos := s.vRandom.length, fInTried := true }
      mapAddr := s.mapAddr.insert info.service.ip s.nIdCount
      vRandom := s.vRandom ++ [s.nIdCount]
      vvTried := Function.update s.vvTried slot (some s.nIdCount) }
  else { s with nTried := s.nTried - 1 }

/-- The loop over the entries of the "tried" table (`addrman.h:366-385`); the lost ones are counted
off as they come. -/
def readTried : Nat → CAddrMan → List UInt8 → Option (CAddrMan × List UInt8)
  | 0, s, bytes => some (s, bytes)
  | left + 1, s, bytes =>
    match CAddrInfo.blank.unserialize bytes with
    | none => none
    | some (info, bytes) => readTried left (s.loadTried hashLow64 info) bytes

/-- A number in a bucket of the "new" table is taken in (`addrman.h:394-401`). -/
def loadIndex (header : Header) (s : CAddrMan) (bucket : Nat) (nIndex : Int) : CAddrMan :=
  if 0 ≤ nIndex ∧ nIndex < s.nNew then
    let info := (s.mapInfo.lookup nIndex.toNat).getD .blank
    let slot := info.newSlotIn hashLow64 s.nKey (Fin.ofNat _ bucket)
    if header.usable ∧ s.vvNew slot = none ∧ info.nRefCount < ADDRMAN_NEW_BUCKETS_PER_ADDRESS then
      s.enterNew slot nIndex.toNat
    else s
  else s

/-- The numbers in one bucket (`addrman.h:391-402`). -/
def readIndices (header : Header) (bucket : Nat) :
    Nat → CAddrMan → List UInt8 → Option (CAddrMan × List UInt8)
  | 0, s, bytes => some (s, bytes)
  | left + 1, s, bytes =>
    match readSigned 4 bytes with
    | none => none
    | some (nIndex, bytes) =>
      readIndices header bucket left (s.loadIndex hashLow64 header bucket nIndex) bytes

/-- The loop over the buckets of the file (`addrman.h:388-403`) from `bucket` on. -/
def readBuckets (header : Header) :
    Nat → Nat → CAddrMan → List UInt8 → Option (CAddrMan × List UInt8)
  | 0, _, s, bytes => some (s, bytes)
  | left + 1, bucket, s, bytes =>
    match readSigned 4 bytes with
    | none => none
    | some (nSize, bytes) =>
      match s.readIndices hashLow64 header bucket nSize.toNat bytes with
      | none => none
      | some (s, bytes) => readBuckets header left (bucket + 1) s bytes

/-- The entries without a slot are deleted (`addrman.h:406-415`). -/
def prune : List (Sigma fun _ : Nat => CAddrInfo) → CAddrMan → Option CAddrMan
  | [], s => some s
  | e :: entries, s =>
    if e.2.fInTried = false ∧ e.2.nRefCount = 0 then (s.delete e.1).bind (prune entries)
    else prune entries s

/-- `CAddrMan::Unserialize` (`addrman.h:326-421`); `nKey` is what `GetRandHash` gives `Clear`. -/
def unserialize (s : CAddrMan) (nKey : UInt256) (bytes : List UInt8) :
    Option (CAddrMan × List UInt8) := do
  let s := s.clear nKey
  let (header, bytes) ← readHeader bytes
  let s := { s with nKey := header.nKey, nNew := header.nNew, nTried := header.nTried }
  let (s, bytes) ← s.readNew hashLow64 header header.nNew.toNat 0 bytes
  let s := { s with nIdCount := header.nNew.toNat }
  let (s, bytes) ← s.readTried hashLow64 header.nTried.toNat bytes
  let (s, bytes) ← s.readBuckets hashLow64 header header.nUBuckets.toNat 0 bytes
  let s ← prune s.mapInfo.inOrder s
  some (s, bytes)

end CAddrMan

end Esbcoin
