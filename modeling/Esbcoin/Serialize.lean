import Esbcoin.Lib.Bytes
import Esbcoin.Primitives

/-!
# Serialisation

What `src/serialize.h` writes for the parts of a transaction (`src/primitives/transaction.h`), as
bytes, and how numbers and sized bytes are read from a `CDataStream` (`src/streams.h`). Numbers are
little endian, signed ones in two's complement. An exception of a reader is `none`.
-/

namespace Esbcoin

open Bytes List

/-- `WriteCompactSize` (`serialize.h:307-329`). -/
def compactSize (nSize : Nat) : List UInt8 :=
  if nSize < 253 then [UInt8.ofNat nSize]
  else if nSize ≤ 0xffff then 253 :: littleEndian 2 nSize
  else if nSize ≤ 0xffffffff then 254 :: littleEndian 4 nSize
  else 255 :: littleEndian 8 nSize

/-- A signed number, little endian. -/
def signedBytes (width : Nat) (n : Int) : List UInt8 :=
  littleEndian width (n % 256 ^ width).toNat

/-- Bytes behind their number: scripts (`serialize.h:698-704`) and strings (`:655-661`). -/
def sizedBytes (bytes : List UInt8) : List UInt8 := compactSize bytes.length ++ bytes

/-- `COutPoint::SerializationOp` (`primitives/transaction.h:32-34`). -/
def COutPoint.serialize (prevout : COutPoint) : List UInt8 :=
  littleEndian 32 prevout.hash.toNat ++ littleEndian 4 prevout.n.toNat

/-- `CTxIn::SerializationOp` (`primitives/transaction.h:85-89`). -/
def CTxIn.serialize (txin : CTxIn) : List UInt8 :=
  txin.prevout.serialize ++ sizedBytes txin.scriptSig ++ littleEndian 4 txin.nSequence.toNat

/-- `CTxOut::SerializationOp` (`primitives/transaction.h:131-134`). -/
def CTxOut.serialize (out : CTxOut) : List UInt8 :=
  signedBytes 8 out.nValue ++ sizedBytes out.scriptPubKey

/-- The elements of a vector behind their number (`serialize.h:706-712`). -/
def sizedElements {α : Type} (write : α → List UInt8) (l : List α) : List UInt8 :=
  compactSize l.length ++ l.flatMap write

/-- `CTransaction::SerializationOp` (`primitives/transaction.h:229-239`). -/
def CTransaction.serialize (tx : CTransaction) : List UInt8 :=
  signedBytes 4 tx.nVersion ++ sizedElements CTxIn.serialize tx.vin ++
    sizedElements CTxOut.serialize tx.vout ++ littleEndian 4 tx.nLockTime.toNat ++
      sizedBytes tx.blob

/-! ## Reading -/

/-- Reads an unsigned number. -/
def readUnsigned (width : Nat) (s : List UInt8) : Option (Nat × List UInt8) :=
  (takeBytes width s).map fun result => (ofLittleEndian result.1, result.2)

/-- The signed number with these bits. -/
def ofTwosComplement (width n : Nat) : Int := if 2 * n < 256 ^ width then n else n - 256 ^ width

/-- Reads a signed number. -/
def readSigned (width : Nat) (s : List UInt8) : Option (Int × List UInt8) :=
  (takeBytes width s).map fun result => (ofTwosComplement width (ofLittleEndian result.1), result.2)

/-- `MAX_SIZE` (`serialize.h:25`). -/
def MAX_SIZE : Nat := 0x02000000

/-- `ReadCompactSize` (`serialize.h:331-357`) in front of its last check. -/
def readSize (s : List UInt8) : Option (Nat × List UInt8) := do
  let (chSize, s) ← readUnsigned 1 s
  if chSize < 253 then some (chSize, s)
  else if chSize = 253 then (readUnsigned 2 s).filter fun result => 253 ≤ result.1
  else if chSize = 254 then (readUnsigned 4 s).filter fun result => 0x10000 ≤ result.1
  else (readUnsigned 8 s).filter fun result => 0x100000000 ≤ result.1

/-- `ReadCompactSize` (`serialize.h:331-361`). -/
def readCompactSize (s : List UInt8) : Option (Nat × List UInt8) :=
  (readSize s).filter fun result => result.1 ≤ MAX_SIZE

/-- A vector of bytes (`serialize.h:721-733`), or a `LIMITED_STRING` (`:503-518`). -/
def readSizedBytes (limit : Nat) (s : List UInt8) : Option (List UInt8 × List UInt8) := do
  let (size, s) ← readCompactSize s
  if limit < size then none else takeBytes size s

/-- So many elements, one after the other (`serialize.h:741-751`). -/
def readEach {α : Type} (read : List UInt8 → Option (α × List UInt8)) :
    Nat → List UInt8 → Option (List α × List UInt8)
  | 0, s => some ([], s)
  | nSize + 1, s =>
    (read s).bind fun (a, s) => (readEach read nSize s).map fun (l, s) => (a :: l, s)

/-- A vector behind its number of elements (`serialize.h:736-751`). -/
def readSizedElements {α : Type} (read : List UInt8 → Option (α × List UInt8)) (s : List UInt8) :
    Option (List α × List UInt8) :=
  (readCompactSize s).bind fun (nSize, s) => readEach read nSize s

/-! ## What is written is read back -/

theorem readSize_cons (byte : UInt8) (s : List UInt8) :
    readSize (byte :: s) = if byte.toNat < 253 then some (byte.toNat, s)
      else if byte.toNat = 253 then (readUnsigned 2 s).filter fun result => 253 ≤ result.1
      else if byte.toNat = 254 then (readUnsigned 4 s).filter fun result => 0x10000 ≤ result.1
      else (readUnsigned 8 s).filter fun result => 0x100000000 ≤ result.1 := by
  have first : readUnsigned 1 (byte :: s) = some (byte.toNat, s) := by
    simp [readUnsigned, takeBytes, ofLittleEndian]
  rw [readSize, first]
  rfl

theorem reads_size : Reads (· < 2 ^ 64) compactSize readSize := by
  have marked : ∀ {width least n : Nat} {s rest : List UInt8},
      (readUnsigned width s).filter (fun result => least ≤ result.1) = some (n, rest) ↔
        n < 256 ^ width ∧ least ≤ n ∧ s = littleEndian width n ++ rest := by
    intro width least n s rest
    have reads := (reads_littleEndian width).filter (fun n => least ≤ n) s n rest
    simp only [decide_eq_true_eq, and_assoc] at reads
    exact reads
  intro bytes n rest
  constructor
  · intro read
    cases bytes with
    | nil => cases read
    | cons byte s =>
      have small := byte.toNat_lt
      rw [readSize_cons] at read
      by_cases tiny : byte.toNat < 253
      · rw [if_pos tiny, Option.some.injEq, Prod.mk.injEq] at read
        obtain ⟨rfl, rfl⟩ := read
        rw [compactSize, if_pos tiny, UInt8.ofNat_toNat]
        exact ⟨by omega, rfl⟩
      rw [if_neg tiny] at read
      by_cases two : byte.toNat = 253
      · rw [if_pos two, marked] at read
        obtain ⟨below, least, rfl⟩ := read
        rw [compactSize, if_neg (by omega), if_pos (by omega),
          UInt8.toNat_inj.mp (show byte.toNat = (253 : UInt8).toNat from two)]
        exact ⟨by omega, rfl⟩
      rw [if_neg two] at read
      by_cases four : byte.toNat = 254
      · rw [if_pos four, marked] at read
        obtain ⟨below, least, rfl⟩ := read
        rw [compactSize, if_neg (by omega), if_neg (by omega), if_pos (by omega),
          UInt8.toNat_inj.mp (show byte.toNat = (254 : UInt8).toNat from four)]
        exact ⟨by omega, rfl⟩
      rw [if_neg four, marked] at read
      obtain ⟨below, least, rfl⟩ := read
      have eight : byte = 255 := UInt8.toNat_inj.mp (show byte.toNat = 255 by omega)
      rw [compactSize, if_neg (by omega), if_neg (by omega), if_neg (by omega), eight]
      exact ⟨by omega, rfl⟩
  · rintro ⟨below, rfl⟩
    unfold compactSize
    by_cases tiny : n < 253
    · have value : (UInt8.ofNat n).toNat = n := by
        rw [UInt8.toNat_ofNat', Nat.mod_eq_of_lt (by omega)]
      rw [if_pos tiny, singleton_append, readSize_cons, value, if_pos tiny]
    rw [if_neg tiny]
    by_cases two : n ≤ 0xffff
    · rw [if_pos two, cons_append, readSize_cons, if_neg (by decide), if_pos (by decide)]
      exact marked.mpr ⟨by omega, by omega, rfl⟩
    rw [if_neg two]
    by_cases four : n ≤ 0xffffffff
    · rw [if_pos four, cons_append, readSize_cons, if_neg (by decide), if_neg (by decide),
        if_pos (by decide)]
      exact marked.mpr ⟨by omega, by omega, rfl⟩
    · rw [if_neg four, cons_append, readSize_cons, if_neg (by decide), if_neg (by decide),
        if_neg (by decide)]
      exact marked.mpr ⟨by omega, by omega, rfl⟩

theorem reads_compactSize : Reads (fun n => n ≤ MAX_SIZE) compactSize readCompactSize := by
  intro bytes n rest
  have reads := reads_size.filter (fun n => n ≤ MAX_SIZE) bytes n rest
  simp only [decide_eq_true_eq] at reads
  refine reads.trans ?_
  constructor
  · rintro ⟨⟨-, allowed⟩, same⟩
    exact ⟨allowed, same⟩
  · rintro ⟨allowed, same⟩
    have bound : MAX_SIZE < 2 ^ 64 := by decide
    exact ⟨⟨by omega, allowed⟩, same⟩

variable {α : Type} {P : α → Prop} {write : α → List UInt8}

theorem reads_each {read : List UInt8 → Option (α × List UInt8)} (reads : Reads P write read)
    (nSize : Nat) :
    Reads (fun l : List α => l.length = nSize ∧ ∀ a ∈ l, P a) (fun l => l.flatMap write)
      (readEach read nSize) := by
  intro bytes l rest
  induction nSize generalizing bytes l with
  | zero =>
    simp only [readEach, Option.some.injEq, Prod.mk.injEq]
    constructor
    · rintro ⟨rfl, rfl⟩
      simp
    · rintro ⟨⟨none, -⟩, rfl⟩
      obtain rfl := length_eq_zero_iff.mp none
      exact ⟨rfl, rfl⟩
  | succ nSize ih =>
    rw [readEach, Option.bind_eq_some_iff]
    constructor
    · rintro ⟨⟨a, s⟩, first, second⟩
      obtain ⟨meets, rfl⟩ := (reads _ _ _).mp first
      obtain ⟨⟨l', s'⟩, more, same⟩ := Option.map_eq_some_iff.mp second
      obtain ⟨rfl, rfl⟩ := Prod.mk.inj same
      obtain ⟨⟨size, all⟩, rfl⟩ := (ih _ _).mp more
      refine ⟨⟨congrArg (· + 1) size, forall_mem_cons.mpr ⟨meets, all⟩⟩, ?_⟩
      simp only [flatMap_cons, append_assoc]
    rintro ⟨⟨size, all⟩, rfl⟩
    cases l with
    | nil => cases size
    | cons a l =>
      obtain ⟨meets, all⟩ := forall_mem_cons.mp all
      refine ⟨(a, l.flatMap write ++ rest), (reads _ _ _).mpr ⟨meets, ?_⟩, ?_⟩
      · simp only [flatMap_cons, append_assoc]
      have more := (ih (l.flatMap write ++ rest) l).mpr ⟨⟨Nat.succ.inj size, all⟩, rfl⟩
      dsimp only
      rw [more]
      rfl

theorem reads_sizedElements {read : List UInt8 → Option (α × List UInt8)}
    (reads : Reads P write read) :
    Reads (fun l : List α => l.length ≤ MAX_SIZE ∧ ∀ a ∈ l, P a) (sizedElements write)
      (readSizedElements read) := by
  intro bytes l rest
  rw [readSizedElements, Option.bind_eq_some_iff]
  constructor
  · rintro ⟨⟨nSize, s⟩, first, second⟩
    obtain ⟨allowed, rfl⟩ := (reads_compactSize _ _ _).mp first
    obtain ⟨⟨rfl, all⟩, rfl⟩ := (reads_each reads nSize _ _ _).mp second
    exact ⟨⟨allowed, all⟩, (append_assoc _ _ _).symm⟩
  rintro ⟨⟨allowed, all⟩, rfl⟩
  refine ⟨(l.length, l.flatMap write ++ rest), ?_, ?_⟩
  · exact (reads_compactSize _ _ _).mpr ⟨allowed, append_assoc _ _ _⟩
  · exact (reads_each reads l.length _ _ _).mpr ⟨⟨rfl, all⟩, rfl⟩

/-! ## What is written can be read in one way -/

theorem splits_compactSize : Splits (· < 2 ^ 64) compactSize := reads_size.splits

@[simp] theorem length_signedBytes (width : Nat) (n : Int) : (signedBytes width n).length = width :=
  length_littleEndian width _

theorem splits_signedBytes {width : Nat} :
    Splits (fun n : Int => -256 ^ width ≤ 2 * n ∧ 2 * n < 256 ^ width) (signedBytes width) := by
  refine splits_of_length width (length_signedBytes width) fun n m hn hm same => ?_
  have positive : (0 : Int) < 256 ^ width := Int.pow_pos (by decide)
  have small : ∀ n : Int, (n % 256 ^ width).toNat < 256 ^ width := by
    intro n
    have above := Int.emod_nonneg n (Int.ne_of_gt positive)
    have cast : ((256 ^ width : Nat) : Int) = 256 ^ width := by simp
    omega
  have words := littleEndian_injective width (small n) (small m) same
  have residues : n % 256 ^ width = m % 256 ^ width := by
    have above := Int.emod_nonneg n (Int.ne_of_gt positive)
    omega
  have divides : (256 ^ width : Int) ∣ n - m :=
    Int.dvd_of_emod_eq_zero (Int.emod_eq_emod_iff_emod_sub_eq_zero.mp residues)
  have zero := Int.eq_zero_of_dvd_of_natAbs_lt_natAbs divides (by omega)
  omega

/-- The range of the signed numbers of `width` bytes. -/
def InTwosComplement (width : Nat) (n : Int) : Prop := -256 ^ width ≤ 2 * n ∧ 2 * n < 256 ^ width

theorem reads_signed (width : Nat) :
    Reads (InTwosComplement width) (signedBytes width) (readSigned width) := by
  have cast : ((256 ^ width : Nat) : Int) = 256 ^ width := by simp
  have positive : (0 : Int) < 256 ^ width := Int.pow_pos (by decide)
  refine (reads_takeBytes width).map (fun bytes => ofTwosComplement width (ofLittleEndian bytes))
    (signedBytes width) (fun n _ => length_signedBytes width n) ?_ ?_ ?_
  · intro bytes length
    have below := ofLittleEndian_lt bytes
    rw [length] at below
    unfold ofTwosComplement
    by_cases half : 2 * ofLittleEndian bytes < 256 ^ width
    · rw [if_pos half]
      constructor <;> omega
    · rw [if_neg half]
      constructor <;> omega
  · rintro n ⟨low, high⟩
    have below := Int.emod_lt_of_pos n positive
    rw [signedBytes, ofLittleEndian_littleEndian (by omega), ofTwosComplement]
    by_cases negative : n < 0
    · have residue : n % 256 ^ width = n + 256 ^ width := by
        rw [← Int.add_emod_right, Int.emod_eq_of_lt (by omega) (by omega)]
      rw [if_neg (by omega)]
      omega
    · have residue : n % 256 ^ width = n := Int.emod_eq_of_lt (by omega) (by omega)
      rw [if_pos (by omega)]
      omega
  · intro bytes length
    have below := ofLittleEndian_lt bytes
    rw [length] at below
    have residue : (ofTwosComplement width (ofLittleEndian bytes) % 256 ^ width).toNat =
        ofLittleEndian bytes := by
      unfold ofTwosComplement
      by_cases half : 2 * ofLittleEndian bytes < 256 ^ width
      · rw [if_pos half, Int.emod_eq_of_lt (by omega) (by omega)]
        omega
      · rw [if_neg half, Int.sub_emod_right, Int.emod_eq_of_lt (by omega) (by omega)]
        omega
    rw [signedBytes, residue, ← length, littleEndian_ofLittleEndian]

theorem reads_sizedBytes (limit : Nat) :
    Reads (fun bytes => bytes.length ≤ limit ∧ bytes.length ≤ MAX_SIZE) sizedBytes
      (readSizedBytes limit) := by
  intro bytes l rest
  constructor
  · intro read
    obtain ⟨⟨size, s⟩, first, behind⟩ := Option.bind_eq_some_iff.mp read
    have second : (if limit < size then none else takeBytes size s) = some (l, rest) := behind
    obtain ⟨allowed, rfl⟩ := (reads_compactSize _ _ _).mp first
    by_cases long : limit < size
    · rw [if_pos long] at second
      cases second
    · rw [if_neg long] at second
      obtain ⟨rfl, rfl⟩ := (reads_takeBytes size _ _ _).mp second
      exact ⟨⟨by omega, allowed⟩, (append_assoc _ _ _).symm⟩
  · rintro ⟨⟨short, allowed⟩, rfl⟩
    refine Option.bind_eq_some_iff.mpr ⟨(l.length, l ++ rest), ?_, ?_⟩
    · exact (reads_compactSize _ _ _).mpr ⟨allowed, append_assoc _ _ _⟩
    · show (if limit < l.length then none else takeBytes l.length (l ++ rest)) = some (l, rest)
      rw [if_neg (by omega)]
      exact (reads_takeBytes l.length _ _ _).mpr ⟨rfl, rfl⟩

theorem splits_sizedBytes : Splits (fun bytes => bytes.length < 2 ^ 64) sizedBytes := by
  intro a b ha hb rest rest' same
  unfold sizedBytes at same
  rw [append_assoc, append_assoc] at same
  obtain ⟨length, behind⟩ := splits_compactSize _ _ ha hb _ _ same
  exact append_inj behind length

theorem splits_outPoint : Splits (fun _ => True) COutPoint.serialize := by
  refine splits_of_length 36 (fun o => by simp [COutPoint.serialize]) ?_
  rintro ⟨hash, n⟩ ⟨hash', n'⟩ - - same
  obtain ⟨first, second⟩ := append_inj same (by simp)
  have hashes := littleEndian_injective 32 hash.isLt hash'.isLt first
  have numbers := littleEndian_injective 4 n.toNat_lt n'.toNat_lt second
  rw [BitVec.eq_of_toNat_eq hashes, UInt32.toNat_inj.mp numbers]

/-- The ranges of the fields of an output. -/
structure CTxOut.Sized (out : CTxOut) : Prop where
  nValue : -2 ^ 63 ≤ out.nValue ∧ out.nValue < 2 ^ 63
  scriptPubKey : out.scriptPubKey.length < 2 ^ 64

theorem splits_txOut : Splits CTxOut.Sized CTxOut.serialize := by
  rintro ⟨value, script⟩ ⟨value', script'⟩ sized sized' rest rest' same
  unfold CTxOut.serialize at same
  rw [append_assoc, append_assoc] at same
  obtain ⟨low, high⟩ := sized.nValue
  obtain ⟨low', high'⟩ := sized'.nValue
  obtain ⟨rfl, behind⟩ := splits_signedBytes _ _ (by constructor <;> simp only at * <;> omega)
    (by constructor <;> simp only at * <;> omega) _ _ same
  obtain ⟨rfl, last⟩ := splits_sizedBytes _ _ sized.scriptPubKey sized'.scriptPubKey _ _ behind
  exact ⟨rfl, last⟩

theorem splits_elements (splits : Splits P write) :
    Splits (fun l : List α => l.length < 2 ^ 64 ∧ ∀ a ∈ l, P a) (sizedElements write) := by
  rintro l l' ⟨length, all⟩ ⟨length', all'⟩ rest rest' same
  unfold sizedElements at same
  rw [append_assoc, append_assoc] at same
  obtain ⟨equal, behind⟩ := splits_compactSize _ _ length length' _ _ same
  exact splits.flatMap equal all all' behind

end Esbcoin
