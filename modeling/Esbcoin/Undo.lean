import Esbcoin.Lib.VarInt
import Esbcoin.Primitives

/-!
# Undo data

Rendering of `src/undo.h`, with what the undo file keeps of it. `CTxInUndo::Serialize` puts height
and marks into one 32-bit code, writes the version only behind a height, and writes both as
`VARINT`; the output behind them goes through `CTxOutCompressor` and is taken as it is.
-/

namespace Esbcoin

open VarInt

/-- `CTxInUndo` (`undo.h:19-30`); `nHeight` is unsigned. -/
structure CTxInUndo where
  txout : CTxOut
  fCoinBase : Bool := false
  fCoinStake : Bool := false
  nHeight : Nat := 0
  nVersion : Int := 0
deriving DecidableEq, Repr

/-- `CTxUndo` (`undo.h:62-76`). -/
structure CTxUndo where
  vprevout : List CTxInUndo
deriving DecidableEq, Repr

/-- `WriteVarInt` of a signed integer (`serialize.h:400-415`): a negative one compares as at
most `0x7F`, so its low seven bits are all that is written. -/
def writeVarIntSigned (n : Int) : List UInt8 :=
  if n < 0 then [UInt8.ofNat (n % 128).toNat] else write n.toNat

/-- What the undo file holds for an input: the bytes before the output, and the output. -/
structure DiskTxInUndo where
  header : List UInt8
  txout : CTxOut
deriving DecidableEq, Repr

namespace CTxInUndo

/-- The code of `CTxInUndo::Serialize`, an unsigned 32-bit expression. -/
def nCode (undo : CTxInUndo) : Nat :=
  (undo.nHeight * 4 + (if undo.fCoinBase then 2 else 0) +
    (if undo.fCoinStake then 1 else 0)) % 2 ^ 32

/-- `CTxInUndo::Serialize` (`undo.h:39-46`). -/
def serialize (undo : CTxInUndo) : DiskTxInUndo :=
  ⟨write undo.nCode ++
    (if undo.nHeight > 0 then writeVarIntSigned undo.nVersion else []), undo.txout⟩

end CTxInUndo

/-- `CTxInUndo::Unserialize` (`undo.h:48-58`). Where bytes are left over before the output,
the output is read from the wrong place: `none`. -/
def DiskTxInUndo.unserialize (disk : DiskTxInUndo) : Option CTxInUndo :=
  match VarInt.read disk.header with
  | none => none
  | some (nCode, rest) =>
    let nHeight := nCode / 4
    let undo : CTxInUndo :=
      { txout := disk.txout, fCoinBase := nCode / 2 % 2 == 1, fCoinStake := nCode % 2 == 1
        nHeight }
    if nHeight > 0 then
      match VarInt.read rest with
      | some (nVersion, []) => some { undo with nVersion := nVersion }
      | _ => none
    else if rest = [] then some undo
    else none

/-- The version as it is read back. -/
def storedVersion (nVersion : Int) : Int := if nVersion < 0 then nVersion % 128 else nVersion

theorem read_writeVarIntSigned (n : Int) (rest : List UInt8) :
    VarInt.read (writeVarIntSigned n ++ rest) = some ((storedVersion n).toNat, rest) := by
  unfold writeVarIntSigned storedVersion
  by_cases negative : n < 0
  · rw [if_pos negative, if_pos negative, List.singleton_append, VarInt.read,
      readFrom_last _ _ (by omega)]
    simp
  · rw [if_neg negative, if_neg negative, read_write]

theorem storedVersion_nonneg (n : Int) : 0 ≤ storedVersion n := by
  unfold storedVersion
  split <;> omega

/-- The undo file gives back what was written, up to the code's 30 bits for the height and
the low bits of a negative version. -/
theorem unserialize_serialize {undo : CTxInUndo} (h : undo.nHeight % 2 ^ 30 ≠ 0) :
    undo.serialize.unserialize = some { undo with
      nHeight := undo.nHeight % 2 ^ 30
      nVersion := storedVersion undo.nVersion } := by
  have positive : undo.nHeight > 0 := by
    rcases Nat.eq_zero_or_pos undo.nHeight with zero | positive
    · simp [zero] at h
    · exact positive
  have height : undo.nCode / 4 = undo.nHeight % 2 ^ 30 := by
    unfold CTxInUndo.nCode
    split <;> split <;> omega
  have coinBase : (undo.nCode / 2 % 2 == 1) = undo.fCoinBase := by
    unfold CTxInUndo.nCode
    cases undo.fCoinBase <;> cases undo.fCoinStake <;>
      simp only [Bool.false_eq_true, ↓reduceIte, beq_iff_eq, beq_eq_false_iff_ne] <;> omega
  have coinStake : (undo.nCode % 2 == 1) = undo.fCoinStake := by
    unfold CTxInUndo.nCode
    cases undo.fCoinBase <;> cases undo.fCoinStake <;>
      simp only [Bool.false_eq_true, ↓reduceIte, beq_iff_eq, beq_eq_false_iff_ne] <;> omega
  have version := read_writeVarIntSigned undo.nVersion []
  rw [List.append_nil] at version
  simp only [DiskTxInUndo.unserialize, CTxInUndo.serialize, positive, ↓reduceIte,
    read_write, height, coinBase, coinStake, version]
  rw [if_pos (by omega), Int.toNat_of_nonneg (storedVersion_nonneg _)]

/-- Without a height no version is written, and none is read. -/
theorem unserialize_serialize_of_zero {undo : CTxInUndo} (hheight : undo.nHeight = 0) :
    undo.serialize.unserialize = some { undo with nVersion := 0 } := by
  obtain ⟨txout, fCoinBase, fCoinStake, nHeight, nVersion⟩ := undo
  subst hheight
  have code :=
    read_write (CTxInUndo.nCode ⟨txout, fCoinBase, fCoinStake, 0, nVersion⟩) []
  rw [List.append_nil] at code
  simp only [DiskTxInUndo.unserialize, CTxInUndo.serialize, gt_iff_lt, Nat.lt_irrefl,
    ↓reduceIte, List.append_nil, code]
  cases fCoinBase <;> cases fCoinStake <;> simp [CTxInUndo.nCode]

/-- A height that is a multiple of 2^30 and not 0 leaves the version unread. -/
theorem unserialize_serialize_of_lost_height {undo : CTxInUndo} (positive : undo.nHeight > 0)
    (lost : undo.nHeight % 2 ^ 30 = 0) : undo.serialize.unserialize = none := by
  have height : undo.nCode / 4 = 0 := by
    unfold CTxInUndo.nCode
    split <;> split <;> omega
  have nonempty : writeVarIntSigned undo.nVersion ≠ [] := by
    intro empty
    have version := read_writeVarIntSigned undo.nVersion []
    rw [empty] at version
    simp [VarInt.read, readFrom] at version
  simp [DiskTxInUndo.unserialize, CTxInUndo.serialize, positive, read_write, height,
    nonempty]

/-- What is read back is written as it was, so a checksum over it is the one written. -/
theorem serialize_of_unserialize {undo read : CTxInUndo}
    (h : undo.serialize.unserialize = some read) : read.serialize = undo.serialize := by
  by_cases zero : undo.nHeight = 0
  · rw [unserialize_serialize_of_zero zero] at h
    obtain rfl := Option.some.inj h
    simp [CTxInUndo.serialize, CTxInUndo.nCode, zero]
  by_cases lost : undo.nHeight % 2 ^ 30 = 0
  · rw [unserialize_serialize_of_lost_height (by omega) lost] at h
    cases h
  rw [unserialize_serialize lost] at h
  obtain rfl := Option.some.inj h
  have code : CTxInUndo.nCode { undo with
      nHeight := undo.nHeight % 2 ^ 30, nVersion := storedVersion undo.nVersion } =
      undo.nCode := by
    simp only [CTxInUndo.nCode]
    split <;> split <;> omega
  have version : writeVarIntSigned (storedVersion undo.nVersion) =
      writeVarIntSigned undo.nVersion := by
    have nonneg := storedVersion_nonneg undo.nVersion
    unfold writeVarIntSigned
    rw [if_neg (by omega)]
    unfold storedVersion
    by_cases negative : undo.nVersion < 0
    · rw [if_pos negative, if_pos negative]
      exact write_small _ (by omega)
    · rw [if_neg negative, if_neg negative]
  have positive : undo.nHeight % 2 ^ 30 > 0 := by omega
  have positive' : undo.nHeight > 0 := by omega
  simp only [CTxInUndo.serialize, code, version, positive, positive', ↓reduceIte]

end Esbcoin
