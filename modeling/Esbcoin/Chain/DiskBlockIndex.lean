import Esbcoin.Chain.StakeModifier
import Esbcoin.Undo

/-!
# Block index entries on disk

`CDiskBlockIndex` (`src/chain.h:393-451`): the bytes of an entry, and what is read back from them. The
fields that are not among the bytes are those of a new entry afterwards (`stored`); the file
positions and the staking fields are written only where a bit says so.
-/

namespace Esbcoin

open Bytes VarInt

/-- `CLIENT_VERSION` (`clientversion.h:50-54`, `configure.ac:3-6`). -/
def CLIENT_VERSION : Nat := 2030001

/-- `nStatus` as a number (`chain.h:63-98`). -/
def BlockStatus.bits (status : BlockStatus) : Nat :=
  status.valid + (if status.haveData then 8 else 0) + (if status.haveUndo then 16 else 0) +
    (if status.failedValid then 32 else 0) + (if status.failedChild then 64 else 0)

/-- `nStatus` as the source packs it. -/
def BlockStatus.ofBits (n : Nat) : BlockStatus where
  valid := n % 8
  haveData := n / 8 % 2 == 1
  haveUndo := n / 16 % 2 == 1
  failedValid := n / 32 % 2 == 1
  failedChild := n / 64 % 2 == 1

/-- `nFlags` as the source packs it. -/
def BlockFlags.ofBits (n : Nat) : BlockFlags where
  proofOfStake := n % 2 == 1
  stakeEntropy := n / 2 % 2 == 1
  stakeModifier := n / 4 % 2 == 1

/-- `CDiskBlockIndex` (`chain.h:393-404`). -/
structure CDiskBlockIndex extends CBlockIndex where
  hashPrev : UInt256
  hashNext : UInt256
deriving DecidableEq

namespace CDiskBlockIndex

/-- `CDiskBlockIndex(pindex)` (`chain.h:406-409`). -/
def ofIndex (pindex : CBlockIndex) : CDiskBlockIndex :=
  { pindex with hashPrev := pindex.pprev.getD 0, hashNext := 0 }

/-- `SerializationOp` (`chain.h:413-451`), written to disk. -/
def serialize (disk : CDiskBlockIndex) : List UInt8 :=
  write CLIENT_VERSION ++ (writeVarIntSigned disk.nHeight ++
    (write disk.nStatus.bits ++ (write disk.nTx ++
    ((if disk.nStatus.haveData || disk.nStatus.haveUndo then writeVarIntSigned disk.nFile
      else []) ++
    ((if disk.nStatus.haveData then write disk.nDataPos else []) ++
    ((if disk.nStatus.haveUndo then write disk.nUndoPos else []) ++
    (signedBytes 8 disk.nMint ++ (signedBytes 8 disk.nMoneySupply ++
    (littleEndian 4 (CBlockIndex.flagBits disk.nFlags) ++
    (littleEndian 8 disk.nStakeModifier.toNat ++
    ((if disk.isProofOfStake then
        disk.prevoutStake.serialize ++ littleEndian 4 disk.nStakeTime.toNat
      else []) ++
    (signedBytes 4 disk.nVersion ++ (littleEndian 32 disk.hashPrev.toNat ++
    (littleEndian 32 disk.hashNext.toNat ++ (littleEndian 32 disk.hashMerkleRoot.toNat ++
    (littleEndian 4 disk.nTime.toNat ++ (littleEndian 4 disk.nBits.toNat ++
      littleEndian 4 disk.nNonce.toNat)))))))))))))))))

/-- The file positions of `SerializationOp` (`chain.h:421-426`), read. -/
def readPositions (nStatus : BlockStatus) (s : List UInt8) :
    Option ((Nat × Nat × Nat) × List UInt8) := do
  let (nFile, s) ← if nStatus.haveData || nStatus.haveUndo then VarInt.read s else some (0, s)
  let (nDataPos, s) ← if nStatus.haveData then VarInt.read s else some (0, s)
  let (nUndoPos, s) ← if nStatus.haveUndo then VarInt.read s else some (0, s)
  some ((nFile, nDataPos, nUndoPos), s)

/-- The staking fields of `SerializationOp` (`chain.h:433-441`), read. -/
def readStake (nFlags : BlockFlags) (s : List UInt8) : Option ((COutPoint × UInt32) × List UInt8) :=
  if nFlags.proofOfStake then do
    let (hash, s) ← readUnsigned 32 s
    let (n, s) ← readUnsigned 4 s
    let (nStakeTime, s) ← readUnsigned 4 s
    some ((⟨BitVec.ofNat 256 hash, UInt32.ofNat n⟩, UInt32.ofNat nStakeTime), s)
  else some ((COutPoint.null, 0), s)

/-- `SerializationOp` (`chain.h:413-451`), read from disk into a new object. -/
def unserialize (s : List UInt8) : Option (CDiskBlockIndex × List UInt8) := do
  let (_, s) ← VarInt.read s
  let (nHeight, s) ← VarInt.read s
  let (nStatus, s) ← VarInt.read s
  let (nTx, s) ← VarInt.read s
  let ((nFile, nDataPos, nUndoPos), s) ← readPositions (BlockStatus.ofBits nStatus) s
  let (nMint, s) ← readSigned 8 s
  let (nMoneySupply, s) ← readSigned 8 s
  let (nFlags, s) ← readUnsigned 4 s
  let (nStakeModifier, s) ← readUnsigned 8 s
  let ((prevoutStake, nStakeTime), s) ← readStake (BlockFlags.ofBits nFlags) s
  let (nVersion, s) ← readSigned 4 s
  let (hashPrev, s) ← readUnsigned 32 s
  let (hashNext, s) ← readUnsigned 32 s
  let (hashMerkleRoot, s) ← readUnsigned 32 s
  let (nTime, s) ← readUnsigned 4 s
  let (nBits, s) ← readUnsigned 4 s
  let (nNonce, s) ← readUnsigned 4 s
  some ({
    phashBlock := none
    nHeight := nHeight
    nFile := nFile
    nDataPos
    nUndoPos
    nTx
    nStatus := BlockStatus.ofBits nStatus
    nFlags := BlockFlags.ofBits nFlags
    nStakeModifier := UInt64.ofNat nStakeModifier
    prevoutStake
    nStakeTime
    nMint
    nMoneySupply
    nVersion
    hashMerkleRoot := BitVec.ofNat 256 hashMerkleRoot
    nTime := UInt32.ofNat nTime
    nBits := UInt32.ofNat nBits
    nNonce := UInt32.ofNat nNonce
    hashPrev := BitVec.ofNat 256 hashPrev
    hashNext := BitVec.ofNat 256 hashNext }, s)

/-- What is read back: the fields that are only in memory are those of a new entry. -/
def stored (disk : CDiskBlockIndex) : CDiskBlockIndex :=
  { disk with
    phashBlock := none
    pprev := none
    nChainWork := 0
    nChainTx := 0
    nStakeModifierChecksum := 0
    hashProofOfStake := 0
    nSequenceId := 0 }

/-- The header that `GetBlockHash` hashes (`chain.h:453-463`). -/
def header (disk : CDiskBlockIndex) : CBlockHeader where
  nVersion := disk.nVersion
  hashPrevBlock := disk.hashPrev
  hashMerkleRoot := disk.hashMerkleRoot
  nTime := disk.nTime
  nBits := disk.nBits
  nNonce := disk.nNonce

end CDiskBlockIndex

/-- The numbers of an entry are in the range of their types, and what is written only where a bit
says so is that of a new entry elsewhere. -/
structure CBlockIndex.Storable (pindex : CBlockIndex) : Prop where
  nHeight : 0 ≤ pindex.nHeight
  nFile : 0 ≤ pindex.nFile
  valid : pindex.nStatus.valid < 8
  nMint : InTwosComplement 8 pindex.nMint
  nMoneySupply : InTwosComplement 8 pindex.nMoneySupply
  nVersion : InTwosComplement 4 pindex.nVersion
  noFile : pindex.nStatus.haveData = false → pindex.nStatus.haveUndo = false → pindex.nFile = 0
  noData : pindex.nStatus.haveData = false → pindex.nDataPos = 0
  noUndo : pindex.nStatus.haveUndo = false → pindex.nUndoPos = 0
  noStake : pindex.isProofOfStake = false →
    pindex.prevoutStake = COutPoint.null ∧ pindex.nStakeTime = 0

namespace CDiskBlockIndex

theorem ofBits_bits (status : BlockStatus) (valid : status.valid < 8) :
    BlockStatus.ofBits status.bits = status := by
  obtain ⟨valid', haveData, haveUndo, failedValid, failedChild⟩ := status
  have small : valid' < 8 := valid
  cases haveData <;> cases haveUndo <;> cases failedValid <;> cases failedChild <;>
    simp only [BlockStatus.ofBits, BlockStatus.bits, BlockStatus.mk.injEq, Bool.false_eq_true,
      if_false, if_true, beq_iff_eq, beq_eq_false_iff_ne] <;> omega

theorem ofBits_flagBits (flags : BlockFlags) :
    BlockFlags.ofBits (CBlockIndex.flagBits flags) = flags := by
  obtain ⟨proofOfStake, stakeEntropy, stakeModifier⟩ := flags
  cases proofOfStake <;> cases stakeEntropy <;> cases stakeModifier <;> rfl

theorem flagBits_lt (flags : BlockFlags) : CBlockIndex.flagBits flags < 256 ^ 4 := by
  obtain ⟨proofOfStake, stakeEntropy, stakeModifier⟩ := flags
  cases proofOfStake <;> cases stakeEntropy <;> cases stakeModifier <;> decide

private theorem readUnsigned_write {width n : Nat} (small : n < 256 ^ width) (rest : List UInt8) :
    readUnsigned width (littleEndian width n ++ rest) = some (n, rest) :=
  (reads_littleEndian width _ _ _).mpr ⟨small, rfl⟩

private theorem readSigned_write {width : Nat} {n : Int} (range : InTwosComplement width n)
    (rest : List UInt8) : readSigned width (signedBytes width n ++ rest) = some (n, rest) :=
  (reads_signed width _ _ _).mpr ⟨range, rfl⟩

private theorem read_writeNonneg {n : Int} (nonneg : 0 ≤ n) (rest : List UInt8) :
    VarInt.read (writeVarIntSigned n ++ rest) = some (n.toNat, rest) := by
  rw [read_writeVarIntSigned, storedVersion, if_neg (by omega)]

private theorem readUnsigned_word (n : UInt32) (rest : List UInt8) :
    readUnsigned 4 (littleEndian 4 n.toNat ++ rest) = some (n.toNat, rest) :=
  readUnsigned_write (by have := n.toNat_lt; omega) rest

private theorem readUnsigned_hash (hash : UInt256) (rest : List UInt8) :
    readUnsigned 32 (littleEndian 32 hash.toNat ++ rest) = some (hash.toNat, rest) :=
  readUnsigned_write (by have := hash.isLt; omega) rest

theorem readPositions_write {disk : CDiskBlockIndex} (storable : disk.Storable)
    (rest : List UInt8) :
    readPositions disk.nStatus
      ((if disk.nStatus.haveData || disk.nStatus.haveUndo then writeVarIntSigned disk.nFile
        else []) ++
      ((if disk.nStatus.haveData then write disk.nDataPos else []) ++
      ((if disk.nStatus.haveUndo then write disk.nUndoPos else []) ++ rest))) =
        some ((disk.nFile.toNat, disk.nDataPos, disk.nUndoPos), rest) := by
  unfold readPositions
  cases data : disk.nStatus.haveData with
  | true =>
    cases undo : disk.nStatus.haveUndo with
    | true =>
      simp only [Bool.or_true, if_true, read_writeNonneg storable.nFile, read_write,
        Option.bind_eq_bind, Option.bind_some]
    | false =>
      simp only [Bool.or_false, Bool.false_eq_true, if_true, if_false, List.nil_append,
        read_writeNonneg storable.nFile, read_write, Option.bind_eq_bind,
        Option.bind_some, storable.noUndo undo]
  | false =>
    cases undo : disk.nStatus.haveUndo with
    | true =>
      simp only [Bool.or_true, Bool.false_eq_true, if_true, if_false, List.nil_append,
        read_writeNonneg storable.nFile, read_write, Option.bind_eq_bind,
        Option.bind_some, storable.noData data]
    | false =>
      simp only [Bool.or_false, Bool.false_eq_true, if_false, List.nil_append,
        Option.bind_eq_bind, Option.bind_some, storable.noData data, storable.noUndo undo,
        storable.noFile data undo, Int.toNat_zero]

theorem readStake_write {disk : CDiskBlockIndex} (storable : disk.Storable) (rest : List UInt8) :
    readStake disk.nFlags
      ((if disk.isProofOfStake then
          disk.prevoutStake.serialize ++ littleEndian 4 disk.nStakeTime.toNat
        else []) ++ rest) = some ((disk.prevoutStake, disk.nStakeTime), rest) := by
  unfold readStake
  cases stake : disk.isProofOfStake with
  | true =>
    have flag : disk.nFlags.proofOfStake = true := stake
    simp only [flag, if_true, COutPoint.serialize, List.append_assoc, readUnsigned_hash,
      readUnsigned_word, Option.bind_eq_bind, Option.bind_some, BitVec.ofNat_toNat,
      BitVec.setWidth_eq, UInt32.ofNat_toNat]
  | false =>
    have flag : disk.nFlags.proofOfStake = false := stake
    obtain ⟨prevout, time⟩ := storable.noStake stake
    simp only [flag, Bool.false_eq_true, if_false, List.nil_append, prevout, time]

/-- A reader goes on behind what was read. -/
private theorem read_then {α β : Type} {read : Option (α × List UInt8)} {a : α}
    {rest : List UInt8} {next : α × List UInt8 → Option β} (found : read = some (a, rest)) :
    (read >>= next) = next (a, rest) := by
  rw [found]
  rfl

/-- An entry is read back but for what is only in memory. -/
theorem unserialize_serialize {disk : CDiskBlockIndex} (storable : disk.Storable)
    (rest : List UInt8) : unserialize (disk.serialize ++ rest) = some (disk.stored, rest) := by
  have height : ((disk.nHeight.toNat : Nat) : Int) = disk.nHeight :=
    Int.toNat_of_nonneg storable.nHeight
  have file : ((disk.nFile.toNat : Nat) : Int) = disk.nFile := Int.toNat_of_nonneg storable.nFile
  have modifier : disk.nStakeModifier.toNat < 256 ^ 8 := by
    have := disk.nStakeModifier.toNat_lt
    omega
  unfold unserialize serialize
  simp only [List.append_assoc]
  refine (read_then (read_write _ _)).trans ?_
  refine (read_then (read_writeNonneg storable.nHeight _)).trans ?_
  refine (read_then (read_write _ _)).trans ?_
  refine (read_then (read_write _ _)).trans ?_
  rw [ofBits_bits disk.nStatus storable.valid]
  refine (read_then (readPositions_write storable _)).trans ?_
  refine (read_then (readSigned_write storable.nMint _)).trans ?_
  refine (read_then (readSigned_write storable.nMoneySupply _)).trans ?_
  refine (read_then (readUnsigned_write (flagBits_lt disk.nFlags) _)).trans ?_
  refine (read_then (readUnsigned_write modifier _)).trans ?_
  rw [ofBits_flagBits]
  refine (read_then (readStake_write storable _)).trans ?_
  refine (read_then (readSigned_write storable.nVersion _)).trans ?_
  refine (read_then (readUnsigned_hash _ _)).trans ?_
  refine (read_then (readUnsigned_hash _ _)).trans ?_
  refine (read_then (readUnsigned_hash _ _)).trans ?_
  refine (read_then (readUnsigned_word _ _)).trans ?_
  refine (read_then (readUnsigned_word _ _)).trans ?_
  refine (read_then (readUnsigned_word _ _)).trans ?_
  rw [height, file, BitVec.ofNat_toNat, BitVec.ofNat_toNat, BitVec.ofNat_toNat,
    BitVec.setWidth_eq, BitVec.setWidth_eq, BitVec.setWidth_eq, UInt32.ofNat_toNat,
    UInt32.ofNat_toNat, UInt32.ofNat_toNat, UInt64.ofNat_toNat]
  rfl

end CDiskBlockIndex

end Esbcoin
