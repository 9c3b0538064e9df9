import Mathlib.Algebra.GroupWithZero.Nat
import Mathlib.Algebra.Ring.Int.Defs
import Mathlib.Data.List.Basic

/-!
# Transactions and blocks

Rendering of `src/primitives/transaction.h`, `src/primitives/transaction.cpp` and
`src/primitives/block.h`. A hash is a 256-bit word; a transaction carries the hash it
caches (`CTransaction::hash`), so nothing here depends on the hash function. Amounts
(`CAmount`) are integers: `CheckTransaction` keeps every one far below the 64-bit boundary, and the one
place that watches the boundary (`GetValueOut`) is modelled with it.
-/

namespace Esbcoin

/-- `uint256` (`uint256.h`), whose `operator+` wraps. -/
abbrev UInt256 := BitVec 256

/-- `COIN` (`amount.h`). -/
def COIN : Int := 100000000

/-- `CScript`, as its bytes (`script/script.h`). -/
abbrev CScript := List UInt8

/-- `COutPoint` (`primitives/transaction.h:20-62`). -/
structure COutPoint where
  hash : UInt256
  n : UInt32
deriving DecidableEq, Repr

namespace COutPoint

/-- `COutPoint::SetNull`. -/
def null : COutPoint := ⟨0, 0xffffffff⟩

/-- `COutPoint::IsNull`. -/
def isNull (prevout : COutPoint) : Bool := prevout.hash == 0 && prevout.n == 0xffffffff

end COutPoint

/-- `CTxIn` (`primitives/transaction.h:68-112`); `prevPubKey` is memory only. -/
structure CTxIn where
  prevout : COutPoint
  scriptSig : CScript := []
  nSequence : UInt32 := 0xffffffff
deriving DecidableEq, Repr

/-- `CTxOut` (`primitives/transaction.h:117-197`). -/
structure CTxOut where
  nValue : Int
  scriptPubKey : CScript
deriving DecidableEq, Repr

namespace CTxOut

/-- `CTxOut::SetNull`: the mark of a spent output. -/
def null : CTxOut := ⟨-1, []⟩

/-- `CTxOut::IsNull`. -/
def isNull (out : CTxOut) : Bool := out.nValue == -1

/-- `CTxOut::IsEmpty`. -/
def isEmpty (out : CTxOut) : Bool := out.nValue == 0 && out.scriptPubKey.isEmpty

end CTxOut

/-- `CTransaction` (`primitives/transaction.h:206-300`). -/
structure CTransaction where
  hash : UInt256
  nVersion : Int
  vin : List CTxIn
  vout : List CTxOut
  nLockTime : UInt32
  blob : List UInt8 := []
deriving DecidableEq, Repr

namespace CTransaction

/-- `CTransaction::CTransaction()`, whose hash is null and not the hash of its bytes. -/
def empty : CTransaction := ⟨0, 1, [], [], 0, []⟩

/-- `CTransaction::GetHash`. -/
def getHash (tx : CTransaction) : UInt256 := tx.hash

/-- `CTransaction::IsCoinBase`. -/
def isCoinBase (tx : CTransaction) : Bool :=
  match tx.vin with
  | [txin] => txin.prevout.isNull
  | _ => false

/-- `CTransaction::IsCoinStake`: the first output of a coinstake is empty. -/
def isCoinStake (tx : CTransaction) : Bool :=
  match tx.vin, tx.vout with
  | txin :: _, first :: _ :: _ => !txin.prevout.isNull && first.isEmpty
  | _, _ => false

/-- The loop of `CTransaction::GetValueOut` from a partial sum; `none` is the
`std::runtime_error` of a negative value or of a sum past the 64-bit boundary. -/
def addValues (nValueOut : Int) : List CTxOut → Option Int
  | [] => some nValueOut
  | out :: vout =>
    if out.nValue < 0 then none
    else if 2 ^ 63 ≤ nValueOut + out.nValue then none
    else addValues (nValueOut + out.nValue) vout

/-- `CTransaction::GetValueOut` (`primitives/transaction.cpp:170-187`). -/
def getValueOut (tx : CTransaction) : Option Int := addValues 0 tx.vout

/-- The outpoints the inputs of `tx` refer to. -/
def prevouts (tx : CTransaction) : List COutPoint := tx.vin.map CTxIn.prevout

theorem nonneg_of_addValues {vout : List CTxOut} {start total : Int}
    (h : addValues start vout = some total) : ∀ out ∈ vout, 0 ≤ out.nValue := by
  induction vout generalizing start with
  | nil => simp
  | cons out vout ih =>
    simp only [addValues] at h
    split at h
    · cases h
    split at h
    · cases h
    intro out' member
    rcases List.mem_cons.mp member with rfl | member
    · omega
    · exact ih h out' member

theorem addValues_eq_sum {vout : List CTxOut} {start total : Int}
    (h : addValues start vout = some total) :
    total = start + (vout.map CTxOut.nValue).sum := by
  induction vout generalizing start with
  | nil => simpa [addValues] using h.symm
  | cons out vout ih =>
    simp only [addValues] at h
    split at h
    · cases h
    split at h
    · cases h
    · rw [ih h, List.map_cons, List.sum_cons]
      omega

/-- A transaction whose `GetValueOut` does not throw has no spent-looking output. -/
theorem not_isNull_of_getValueOut {tx : CTransaction} {total : Int}
    (h : tx.getValueOut = some total) : ∀ out ∈ tx.vout, out.isNull = false := by
  intro out member
  have nonneg := nonneg_of_addValues h out member
  simp only [CTxOut.isNull, beq_eq_false_iff_ne]
  omega

theorem not_isCoinBase_of_isCoinStake {tx : CTransaction} (h : tx.isCoinStake = true) :
    tx.isCoinBase = false := by
  unfold isCoinStake at h
  unfold isCoinBase
  split at h
  · split
    · rename_i _ _ _ _ hvin _ _ _ heq
      rw [hvin] at heq
      simp only [List.cons.injEq] at heq
      simp only [Bool.and_eq_true, Bool.not_eq_eq_eq_not, Bool.not_true] at h
      rw [← heq.1]
      exact h.1
    · rfl
  · cases h

end CTransaction

/-- `CBlockHeader` (`primitives/block.h:25-81`). -/
structure CBlockHeader where
  nVersion : Int
  hashPrevBlock : UInt256
  hashMerkleRoot : UInt256
  nTime : UInt32
  nBits : UInt32
  nNonce : UInt32
deriving DecidableEq, Repr

/-- `CBlock` (`primitives/block.h:84-180`), with the hash of its header. -/
structure CBlock extends CBlockHeader where
  hash : UInt256
  vtx : List CTransaction
  vchBlockSig : List UInt8 := []
deriving DecidableEq, Repr

namespace CBlock

/-- `CBlock::GetHash`. -/
def getHash (block : CBlock) : UInt256 := block.hash

/-- `CBlock::GetBlockTime`. -/
def getBlockTime (block : CBlock) : Int := block.nTime.toNat

/-- `CBlock::IsProofOfStake`. -/
def isProofOfStake (block : CBlock) : Bool :=
  match block.vtx with
  | _ :: second :: _ => second.isCoinStake
  | _ => false

/-- `CBlock::IsProofOfWork`. -/
def isProofOfWork (block : CBlock) : Bool := !block.isProofOfStake

end CBlock

end Esbcoin
