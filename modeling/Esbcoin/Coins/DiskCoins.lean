import Esbcoin.Coins.CCoins
import Esbcoin.Compressor.Scripts
import Esbcoin.Lib.SparseMask

/-!
# Records of unspent outputs on disk

Rendering of `CCoins::Serialize`, `Unserialize` and `GetSerializeSize` (`src/coins.h:174-254`,
`src/coins.cpp:20-37`) and of the same of `CTxInUndo` (`src/undo.h:31-58`) over a byte stream. The
header code packs four flags below the number of mask bytes that are not zero; a reader counts these
bytes down. What is written is read back (`CCoins.unserialize_serialize`).
-/

namespace Esbcoin

open VarInt SparseMask List

/-- `ReadVarInt` into an `int` (`serialize.h:417-432`). -/
def readVarIntSigned (bytes : List UInt8) : Option (Int × List UInt8) :=
  (readVarInt 32 bytes).map fun (n, rest) => (Int.bmod n (2 ^ 32), rest)

/-- `GetSizeOfVarInt` of a signed integer (`serialize.h:387-398`). -/
def sizeOfVarIntSigned (n : Int) : Nat := if n < 0 then 1 else VarInt.size n.toNat

theorem length_writeVarIntSigned (n : Int) :
    (writeVarIntSigned n).length = sizeOfVarIntSigned n := by
  unfold writeVarIntSigned sizeOfVarIntSigned
  split
  · rfl
  · exact length_write _

theorem readVarIntSigned_write {n : Int} (nonneg : 0 ≤ n) (fits : n < 2 ^ 31)
    (rest : List UInt8) : readVarIntSigned (writeVarIntSigned n ++ rest) = some (n, rest) := by
  obtain ⟨n, rfl⟩ := Int.eq_ofNat_of_zero_le nonneg
  have signed : Int.bmod n (2 ^ 32) = n := Int.bmod_eq_of_le (by omega) (by omega)
  rw [writeVarIntSigned, if_neg (by omega), readVarIntSigned, Int.toNat_natCast,
    readVarInt_write (by omega), Option.map_some]
  dsimp only
  rw [signed]

/-! ## The layout -/

namespace CCoins

/-- Output `i` is there and unspent. -/
def unspentAt (coins : CCoins) (i : Nat) : Bool := !(coins.vout.getD i CTxOut.null).isNull

/-- `CCoins::CalcMaskSize` (`coins.cpp:20-37`): the bytes of the mask, and those that are not
zero. -/
def calcMaskSize (coins : CCoins) : Nat × Nat :=
  SparseMask.size (fun i => coins.unspentAt (2 + i)) ((coins.vout.length - 2 + 7) / 8)

/-- `nMaskCode - (fFirst || fSecond ? 0 : 1)`: a record that is not fully spent and has neither
of its first two outputs has a mask. -/
def maskCode (coins : CCoins) : Nat :=
  coins.calcMaskSize.2 - (if coins.unspentAt 0 || coins.unspentAt 1 then 0 else 1)

/-- The low bits of the header code. -/
def headerFlags (coins : CCoins) : Nat :=
  (if coins.fCoinBase then 1 else 0) + (if coins.fCoinStake then 2 else 0) +
    (if coins.unspentAt 0 then 4 else 0) + (if coins.unspentAt 1 then 8 else 0)

/-- `nCode` of `CCoins::Serialize` (`coins.h:206`), an `unsigned int`. -/
def nCode (coins : CCoins) : Nat := (16 * coins.maskCode + coins.headerFlags) % 2 ^ 32

/-- `nCode` of `CCoins::GetSerializeSize` (`coins.h:182`). -/
def nCodeOfSize (coins : CCoins) : Nat := (8 * coins.maskCode + coins.headerFlags) % 2 ^ 32

/-- `CCoins::Serialize` (`coins.h:198-226`) of a record that is not fully spent: its assertion
holds (`exists_unspentAt`). -/
def serialize (keys : KeyCodec) (coins : CCoins) : List UInt8 :=
  writeVarIntSigned coins.nVersion ++ (write coins.nCode ++
    (SparseMask.mask (fun i => coins.unspentAt (2 + i)) coins.calcMaskSize.1 ++
      ((coins.vout.filter fun out => !out.isNull).flatMap (CTxOutCompressor.serialize keys) ++
        writeVarIntSigned coins.nHeight)))

/-- `CCoins::GetSerializeSize` (`coins.h:174-196`), an `unsigned int`; the size of an output is
counted by writing it (`CSizeComputer`, `serialize.h:896-924`). -/
def getSerializeSize (keys : KeyCodec) (coins : CCoins) : Nat :=
  (sizeOfVarIntSigned coins.nVersion + VarInt.size coins.nCodeOfSize + coins.calcMaskSize.1 +
    ((coins.vout.filter fun out => !out.isNull).map fun out =>
      (CTxOutCompressor.serialize keys out).length).sum +
    sizeOfVarIntSigned coins.nHeight) % 2 ^ 32

/-- The loop of `CCoins::Unserialize` over `vAvail` (`coins.h:246-250`). -/
def readOutputs (keys : KeyCodec) : List Bool → List UInt8 → Option (List CTxOut × List UInt8)
  | [], bytes => some ([], bytes)
  | false :: vAvail, bytes =>
    (readOutputs keys vAvail bytes).map fun (vout, rest) => (CTxOut.null :: vout, rest)
  | true :: vAvail, bytes =>
    (CTxOutCompressor.unserialize keys CTxOut.null bytes).bind fun (out, bytes) =>
      (readOutputs keys vAvail bytes).map fun (vout, rest) => (out :: vout, rest)

/-- `CCoins::Unserialize` (`coins.h:228-254`). -/
def unserialize (keys : KeyCodec) (bytes : List UInt8) : Option (CCoins × List UInt8) :=
  (readVarIntSigned bytes).bind fun (nVersion, bytes) =>
    (readVarInt 32 bytes).bind fun (nCode, bytes) =>
      let vAvail := [nCode / 4 % 2 == 1, nCode / 8 % 2 == 1]
      let nMaskCode := nCode / 16 + (if nCode / 4 % 4 ≠ 0 then 0 else 1)
      (readMask nMaskCode bytes).bind fun (mask, bytes) =>
        (readOutputs keys (vAvail ++ mask) bytes).bind fun (vout, bytes) =>
          (readVarIntSigned bytes).map fun (nHeight, rest) =>
            (cleanup
              { fCoinBase := nCode % 2 == 1, fCoinStake := nCode / 2 % 2 == 1, vout, nHeight
                nVersion }, rest)

end CCoins

namespace CTxInUndo

/-- `CTxInUndo::Serialize` (`undo.h:39-46`) with the output behind the header. -/
def serializeBytes (keys : KeyCodec) (undo : CTxInUndo) : List UInt8 :=
  undo.serialize.header ++ CTxOutCompressor.serialize keys undo.serialize.txout

/-- `CTxInUndo::GetSerializeSize` (`undo.h:31-37`), an `unsigned int`. -/
def getSerializeSize (keys : KeyCodec) (undo : CTxInUndo) : Nat :=
  (VarInt.size undo.nCode + (if undo.nHeight > 0 then sizeOfVarIntSigned undo.nVersion else 0) +
    (CTxOutCompressor.serialize keys undo.txout).length) % 2 ^ 32

/-- `CTxInUndo::Unserialize` (`undo.h:48-58`) into `CTxInUndo()`. -/
def unserializeBytes (keys : KeyCodec) (bytes : List UInt8) : Option (CTxInUndo × List UInt8) :=
  (readVarInt 32 bytes).bind fun (nCode, bytes) =>
    let nHeight := nCode / 4
    (if nHeight > 0 then readVarIntSigned bytes else some (0, bytes)).bind fun (nVersion, bytes) =>
      (CTxOutCompressor.unserialize keys CTxOut.null bytes).map fun (txout, rest) =>
        ({ txout, fCoinBase := nCode / 2 % 2 == 1, fCoinStake := nCode % 2 == 1, nHeight
           nVersion }, rest)

end CTxInUndo

/-! ## Reading a record back -/

namespace CCoins

/-- Of a record that is not fully spent, one of the first two outputs or a byte of the mask is
there. -/
theorem exists_unspentAt {coins : CCoins} (unspent : coins.isPruned = false) :
    coins.unspentAt 0 = true ∨ coins.unspentAt 1 = true ∨ 0 < coins.calcMaskSize.2 := by
  by_contra none_there
  simp only [not_or, Bool.not_eq_true, Nat.not_lt, Nat.le_zero] at none_there
  obtain ⟨first, second, bytes⟩ := none_there
  rw [isPruned, all_eq_false] at unspent
  obtain ⟨out, member, alive⟩ := unspent
  obtain ⟨i, inside, rfl⟩ := getElem_of_mem member
  have there : coins.unspentAt i = true := by
    rw [unspentAt, getD_eq_getElem?_getD, List.getElem?_eq_getElem inside, Option.getD_some]
    simpa using alive
  rcases Nat.lt_or_ge i 2 with early | late
  · obtain rfl | rfl : i = 0 ∨ i = 1 := by omega
    · rw [first] at there
      cases there
    · rw [second] at there
      cases there
  · have behind := unmarked_of_zero (fun i => coins.unspentAt (2 + i)) bytes
      (show i - 2 < (coins.vout.length - 2 + 7) / 8 * 8 by omega)
    rw [show 2 + (i - 2) = i by omega, there] at behind
    cases behind

/-- What is stored of a record: an output is spent or can be stored, the numbers are not negative
and the header code fits in 32 bits. -/
structure Storable (params : CChainParams) (coins : CCoins) : Prop where
  outputs : ∀ out ∈ coins.vout, out = CTxOut.null ∨ out.Storable params
  count : coins.vout.length + 5 < 2 ^ 31
  height : 0 ≤ coins.nHeight ∧ coins.nHeight < 2 ^ 31
  version : 0 ≤ coins.nVersion ∧ coins.nVersion < 2 ^ 31

theorem not_isNull_of_storable {params : CChainParams} {out : CTxOut}
    (storable : out.Storable params) : out.isNull = false := by
  have amount := storable.amount
  simp only [moneyRange, Bool.and_eq_true, decide_eq_true_eq] at amount
  rw [CTxOut.isNull, beq_eq_false_iff_ne]
  omega

/-- Outputs are read back at the places that are marked. -/
theorem readOutputs_flatMap {keys : KeyCodec} (inverts : keys.Inverts) {params : CChainParams}
    (network : NetworkParams params) {vout : List CTxOut}
    (outputs : ∀ out ∈ vout, out = CTxOut.null ∨ out.Storable params) (rest : List UInt8) :
    readOutputs keys (vout.map fun out => !out.isNull)
      ((vout.filter fun out => !out.isNull).flatMap (CTxOutCompressor.serialize keys) ++ rest) =
        some (vout, rest) := by
  induction vout with
  | nil => rfl
  | cons out vout ih =>
    obtain ⟨first, outputs⟩ := forall_mem_cons.mp outputs
    have back := ih outputs
    rcases first with rfl | storable
    · rw [map_cons, filter_cons_of_neg (by decide)]
      show (readOutputs keys (vout.map fun out => !out.isNull) _).map _ = _
      rw [back]
      rfl
    have alive := not_isNull_of_storable storable
    rw [map_cons, filter_cons_of_pos (by rw [alive]; rfl), alive, Bool.not_false,
      readOutputs, flatMap_cons, append_assoc,
      CTxOutCompressor.unserialize_serialize inverts network storable, Option.bind_some]
    dsimp only
    rw [back]
    rfl

/-- Lists that differ in spent outputs behind the last one hold the same outputs. -/
theorem same_outputs {vout vout' : List CTxOut}
    (same : ∀ i, vout.getD i CTxOut.null = vout'.getD i CTxOut.null) :
    (vout.filter fun out => !out.isNull) = (vout'.filter fun out => !out.isNull) ∧
      vout.rdropWhile CTxOut.isNull = vout'.rdropWhile CTxOut.isNull := by
  have longer : ∀ (l : List CTxOut) (n : Nat),
      ((l ++ List.replicate n CTxOut.null).filter fun out => !out.isNull) =
          (l.filter fun out => !out.isNull) ∧
        (l ++ List.replicate n CTxOut.null).rdropWhile CTxOut.isNull =
          l.rdropWhile CTxOut.isNull := by
    intro l n
    induction n with
    | zero => simp
    | succ n ih =>
      rw [replicate_succ', ← append_assoc, filter_append,
        rdropWhile_concat_pos _ _ _ (by rfl)]
      exact ⟨(append_nil _).trans ih.1, ih.2⟩
  have extended : ∀ {l l' : List CTxOut}, (∀ i, l.getD i CTxOut.null = l'.getD i CTxOut.null) →
      l.length ≤ l'.length → l' = l ++ List.replicate (l'.length - l.length) CTxOut.null := by
    intro l l' same shorter
    refine ext_getElem (by simp; omega) fun i inside inside' => ?_
    have at_i := same i
    rw [getD_eq_getElem _ _ inside] at at_i
    rw [← at_i]
    by_cases early : i < l.length
    · rw [getElem_append_left early, getD_eq_getElem _ _ early]
    · rw [getElem_append_right (by omega), getElem_replicate,
        getD_eq_default _ _ (by omega)]
  rcases Nat.le_total vout.length vout'.length with shorter | shorter
  · rw [extended same shorter]
    exact ⟨(longer _ _).1.symm, (longer _ _).2.symm⟩
  · rw [extended (fun i => (same i).symm) shorter]
    exact longer _ _

/-- The outputs as the mask has them: up to its last mark. -/
def masked (coins : CCoins) : List CTxOut :=
  (List.range (2 + coins.calcMaskSize.1 * 8)).map fun i => coins.vout.getD i CTxOut.null

section Masked

variable {coins : CCoins} {params : CChainParams}

theorem map_masked : (coins.masked.map fun out => !out.isNull) =
    [coins.unspentAt 0, coins.unspentAt 1] ++
      (List.range (coins.calcMaskSize.1 * 8)).map fun i => coins.unspentAt (2 + i) := by
  rw [masked, range_add, map_append, map_append, map_map, map_map,
    map_map]
  rfl

theorem getD_masked (outputs : ∀ out ∈ coins.vout, out = CTxOut.null ∨ out.Storable params)
    (i : Nat) : coins.masked.getD i CTxOut.null = coins.vout.getD i CTxOut.null := by
  by_cases inside : i < 2 + coins.calcMaskSize.1 * 8
  · rw [masked, getD_eq_getElem?_getD, List.getElem?_map, List.getElem?_range inside]
    rfl
  rw [getD_eq_default _ _ (by simp only [masked, length_map, length_range]; omega)]
  by_cases there : i < coins.vout.length
  · have spent := unmarked (fun i => coins.unspentAt (2 + i))
      (show i - 2 < (coins.vout.length - 2 + 7) / 8 * 8 by omega)
      (show coins.calcMaskSize.1 * 8 ≤ i - 2 by omega)
    rw [show 2 + (i - 2) = i by omega, unspentAt, getD_eq_getElem _ _ there,
      Bool.not_eq_false'] at spent
    rw [getD_eq_getElem _ _ there]
    rcases outputs _ (getElem_mem there) with null | storable
    · exact null.symm
    · rw [not_isNull_of_storable storable] at spent
      cases spent
  · rw [getD_eq_default _ _ (by omega)]

theorem mem_masked (outputs : ∀ out ∈ coins.vout, out = CTxOut.null ∨ out.Storable params) :
    ∀ out ∈ coins.masked, out = CTxOut.null ∨ out.Storable params := by
  intro out member
  obtain ⟨i, -, rfl⟩ := mem_map.mp member
  by_cases there : i < coins.vout.length
  · rw [getD_eq_getElem _ _ there]
    exact outputs _ (getElem_mem there)
  · rw [getD_eq_default _ _ (by omega)]
    exact Or.inl rfl

end Masked

theorem headerFlags_lt (coins : CCoins) : coins.headerFlags < 16 := by
  unfold headerFlags
  split <;> split <;> split <;> split <;> omega

theorem maskCode_le (coins : CCoins) : coins.maskCode ≤ (coins.vout.length - 2 + 7) / 8 := by
  have bound := SparseMask.size_le (fun i => coins.unspentAt (2 + i))
    ((coins.vout.length - 2 + 7) / 8)
  rw [maskCode, calcMaskSize]
  omega

/-- The header code of a record with fewer than 2^31 outputs does not wrap. -/
theorem nCode_eq {coins : CCoins} (count : coins.vout.length + 5 < 2 ^ 31) :
    coins.nCode = 16 * coins.maskCode + coins.headerFlags := by
  have flags := coins.headerFlags_lt
  have bytes := coins.maskCode_le
  rw [nCode, Nat.mod_eq_of_lt (by omega)]

theorem nCodeOfSize_eq {coins : CCoins} (count : coins.vout.length + 5 < 2 ^ 31) :
    coins.nCodeOfSize = 8 * coins.maskCode + coins.headerFlags := by
  have flags := coins.headerFlags_lt
  have bytes := coins.maskCode_le
  rw [nCodeOfSize, Nat.mod_eq_of_lt (by omega)]

/-- What a reader finds in the header code. -/
structure Header (coins : CCoins) (nCode : Nat) : Prop where
  coinBase : (nCode % 2 == 1) = coins.fCoinBase
  coinStake : (nCode / 2 % 2 == 1) = coins.fCoinStake
  first : (nCode / 4 % 2 == 1) = coins.unspentAt 0
  second : (nCode / 8 % 2 == 1) = coins.unspentAt 1
  nMaskCode : nCode / 16 + (if nCode / 4 % 4 ≠ 0 then 0 else 1) = coins.calcMaskSize.2

/-- Four flags below a number, and what is found of them. -/
theorem packed_flags (a b c d : Bool) (m : Nat) :
    ∃ n, n = 16 * m + ((if a then 1 else 0) + (if b then 2 else 0) + (if c then 4 else 0) +
        (if d then 8 else 0)) ∧ (n % 2 == 1) = a ∧ (n / 2 % 2 == 1) = b ∧ (n / 4 % 2 == 1) = c ∧
      (n / 8 % 2 == 1) = d ∧ n / 16 = m ∧ (n / 4 % 4 ≠ 0 ↔ (c || d) = true) := by
  refine ⟨_, rfl, ?_⟩
  cases a <;> cases b <;> cases c <;> cases d <;>
    simp only [Bool.false_eq_true, ↓reduceIte, beq_iff_eq, beq_eq_false_iff_ne, Bool.or_self,
      Bool.or_true, Bool.or_false, iff_true, iff_false] <;>
    omega

theorem header_nCode {coins : CCoins} (unspent : coins.isPruned = false)
    (count : coins.vout.length + 5 < 2 ^ 31) : coins.Header coins.nCode := by
  have there := exists_unspentAt unspent
  have code := nCode_eq count
  obtain ⟨n, packed, coinBase, coinStake, first, second, bytes, marked⟩ :=
    packed_flags coins.fCoinBase coins.fCoinStake (coins.unspentAt 0) (coins.unspentAt 1)
      coins.maskCode
  obtain rfl : n = coins.nCode := packed.trans code.symm
  refine ⟨coinBase, coinStake, first, second, ?_⟩
  rw [bytes, maskCode]
  by_cases either : (coins.unspentAt 0 || coins.unspentAt 1) = true
  · rw [if_pos (marked.mpr either), if_pos either]
    omega
  have more : 0 < coins.calcMaskSize.2 := by
    simp only [Bool.or_eq_true, not_or] at either
    rcases there with first | second | more
    · exact absurd first either.1
    · exact absurd second either.2
    · exact more
  rw [if_neg fun found => either (marked.mp found), if_neg either]
  omega

/-- A record that is not fully spent is read back, without the spent outputs at its end. -/
theorem unserialize_serialize {keys : KeyCodec} (inverts : keys.Inverts) {params : CChainParams}
    (network : NetworkParams params) {coins : CCoins} (unspent : coins.isPruned = false)
    (storable : coins.Storable params) (rest : List UInt8) :
    unserialize keys (serialize keys coins ++ rest) = some (coins.cleanup, rest) := by
  obtain ⟨outputs, count, height, version⟩ := storable
  obtain ⟨coinBase, coinStake, first, second, nMaskCode⟩ := header_nCode unspent count
  obtain ⟨outs, dropped⟩ := same_outputs (getD_masked outputs)
  have mask := readMask_mask (fun i => coins.unspentAt (2 + i))
    ((coins.vout.length - 2 + 7) / 8)
  have code : coins.nCode < 2 ^ 32 := Nat.mod_lt _ (by decide)
  have vout := readOutputs_flatMap inverts network (mem_masked outputs)
    (writeVarIntSigned coins.nHeight ++ rest)
  rw [outs, map_masked] at vout
  simp only [serialize, append_assoc]
  rw [unserialize, readVarIntSigned_write version.1 version.2, Option.bind_some]
  dsimp only
  rw [readVarInt_write code, Option.bind_some]
  rw [nMaskCode, first, second, calcMaskSize, mask, Option.bind_some]
  rw [← calcMaskSize, vout, Option.bind_some]
  rw [readVarIntSigned_write height.1 height.2, Option.map_some, coinBase, coinStake]
  rw [cleanup, cleanup, dropped]

end CCoins

/-- Undo data is read back: its code holds 30 bits of the height, and a version is stored behind a
height only. -/
theorem CTxInUndo.unserializeBytes_serializeBytes {keys : KeyCodec} (inverts : keys.Inverts)
    {params : CChainParams} (network : NetworkParams params) {undo : CTxInUndo}
    (storable : undo.txout.Storable params) (height : undo.nHeight < 2 ^ 30)
    (version : 0 ≤ undo.nVersion ∧ undo.nVersion < 2 ^ 31)
    (unversioned : undo.nHeight = 0 → undo.nVersion = 0) (rest : List UInt8) :
    unserializeBytes keys (serializeBytes keys undo ++ rest) = some (undo, rest) := by
  obtain ⟨n, packed, coinStake, coinBase, -, -, -, -⟩ :=
    CCoins.packed_flags undo.fCoinStake undo.fCoinBase false false 0
  have code : undo.nCode = 4 * undo.nHeight + n := by
    rw [nCode, packed]
    split <;> split <;> simp only [Bool.false_eq_true, ↓reduceIte] <;> omega
  have small : n < 4 := by
    rw [packed]
    split <;> split <;> simp only [Bool.false_eq_true, ↓reduceIte] <;> omega
  have fits : undo.nCode < 2 ^ 32 := Nat.mod_lt _ (by decide)
  have output := CTxOutCompressor.unserialize_serialize inverts network storable CTxOut.null rest
  have high : undo.nCode / 4 = undo.nHeight := by omega
  have low : undo.nCode % 2 = n % 2 := by omega
  have second : undo.nCode / 2 % 2 = n / 2 % 2 := by omega
  simp only [serializeBytes, CTxInUndo.serialize, append_assoc]
  rw [unserializeBytes, readVarInt_write fits, Option.bind_some]
  dsimp only
  rw [high, low, second, coinStake, coinBase]
  by_cases positive : undo.nHeight > 0
  · rw [if_pos positive, if_pos positive, readVarIntSigned_write version.1 version.2,
      Option.bind_some]
    rw [output]
    rfl
  · rw [if_neg positive, if_neg positive, nil_append, Option.bind_some]
    rw [output, ← unversioned (by omega)]
    rfl

/-! ## What is stored and what is read -/

/-- What is stored is read back, with what follows it left: a record without the spent outputs at
its end, undo data, and an output, whatever stood in its place. -/
theorem stored_read_back {keys : KeyCodec} (inverts : keys.Inverts) {params : CChainParams}
    (network : NetworkParams params) :
    (∀ (coins : CCoins) (rest : List UInt8), coins.isPruned = false → coins.Storable params →
      CCoins.unserialize keys (CCoins.serialize keys coins ++ rest) = some (coins.cleanup, rest)) ∧
    (∀ (undo : CTxInUndo) (rest : List UInt8), undo.txout.Storable params →
      undo.nHeight < 2 ^ 30 → 0 ≤ undo.nVersion ∧ undo.nVersion < 2 ^ 31 →
      (undo.nHeight = 0 → undo.nVersion = 0) →
      CTxInUndo.unserializeBytes keys (CTxInUndo.serializeBytes keys undo ++ rest) =
        some (undo, rest)) ∧
    (∀ (txout old : CTxOut) (rest : List UInt8), txout.Storable params →
      CTxOutCompressor.unserialize keys old (CTxOutCompressor.serialize keys txout ++ rest) =
        some (txout, rest)) :=
  ⟨fun _ rest unspent storable =>
      CCoins.unserialize_serialize inverts network unspent storable rest,
    fun _ rest storable height version unversioned =>
      CTxInUndo.unserializeBytes_serializeBytes inverts network storable height version unversioned
        rest,
    fun _ old rest storable =>
      CTxOutCompressor.unserialize_serialize inverts network storable old rest⟩

def noKeys : KeyCodec := ⟨fun _ => false, fun _ => none⟩

theorem inverts_noKeys : noKeys.Inverts := by
  intro key length header valid
  cases valid

def smallOutput : CTxOut := ⟨1, []⟩

theorem storable_smallOutput : smallOutput.Storable mainParams := ⟨by decide, by decide⟩

theorem stored_read_back_small :
    noKeys.Inverts ∧ NetworkParams mainParams ∧
      CCoins.unserialize noKeys
          (CCoins.serialize noKeys { vout := [smallOutput, CTxOut.null, smallOutput] } ++ []) =
        some ({ vout := [smallOutput, CTxOut.null, smallOutput] }, []) := by
  refine ⟨inverts_noKeys, .main, ?_⟩
  refine (stored_read_back inverts_noKeys .main).1
    { vout := [smallOutput, CTxOut.null, smallOutput] } [] rfl ⟨?_, by decide, by decide, by decide⟩
  intro out member
  simp only [mem_cons, not_mem_nil, or_false] at member
  rcases member with rfl | rfl | rfl
  · exact Or.inr storable_smallOutput
  · exact Or.inl rfl
  · exact Or.inr storable_smallOutput

section Wrapped

variable {keys : KeyCodec}

/-- A script six bytes short of 4 GB has the size of a special script. -/
theorem CScriptCompressor.unserialize_ne_of_wraps {script : CScript}
    (length : script.length + nSpecialScripts = 2 ^ 32) :
    unserialize keys [] (serialize keys script ++ []) ≠ some (script, []) := by
  rw [nSpecialScripts] at length
  have raw : compress keys script = none := by
    rw [compress, isToKeyID, if_neg (by omega), isToScriptID]
    rw [if_neg (by omega), isToPubKey, if_neg (by omega), if_neg (by omega)]
  rw [serialize, raw]
  rw [nSpecialScripts, length, Nat.mod_self, append_nil, unserialize,
    readVarInt_write (by decide), Option.bind_some]
  dsimp only
  rw [if_pos (by decide), show getSpecialSize 0 = 20 from rfl, Bytes.takeBytes,
    if_pos (by omega), Option.map_some]
  intro same
  have sizes := congrArg (Option.map fun result => result.1.length) same
  simp only [decompress, ↓reduceIte, Option.getD_some, Option.map_some, length_append,
    length_take, Option.some.injEq, length_cons, length_nil] at sizes
  omega

theorem CCoins.length_readOutputs {vAvail : List Bool} {bytes rest : List UInt8}
    {vout : List CTxOut} (read : readOutputs keys vAvail bytes = some (vout, rest)) :
    vout.length = vAvail.length := by
  induction vAvail generalizing bytes vout rest with
  | nil =>
    obtain ⟨rfl, -⟩ := Prod.mk.inj (Option.some.inj read)
    rfl
  | cons mark vAvail ih =>
    cases mark with
    | false =>
      obtain ⟨⟨vout', rest'⟩, more, same⟩ := Option.map_eq_some_iff.mp read
      obtain ⟨rfl, -⟩ := Prod.mk.inj same
      rw [length_cons, length_cons, ih more]
    | true =>
      obtain ⟨⟨out, bytes'⟩, -, read⟩ := Option.bind_eq_some_iff.mp read
      obtain ⟨⟨vout', rest'⟩, more, same⟩ := Option.map_eq_some_iff.mp read
      obtain ⟨rfl, -⟩ := Prod.mk.inj same
      rw [length_cons, length_cons, ih more]

/-- With 2^28 bytes of the mask the header code wraps, and two outputs at most are read. -/
theorem CCoins.unserialize_ne_of_wraps {coins : CCoins} (wraps : coins.maskCode = 2 ^ 28)
    (first : coins.unspentAt 0 = true) (version : coins.nVersion = 0)
    (many : 2 < coins.cleanup.vout.length) :
    unserialize keys (serialize keys coins ++ []) ≠ some (coins.cleanup, []) := by
  have flags := coins.headerFlags_lt
  have fits : coins.nCode < 2 ^ 32 := Nat.mod_lt _ (by decide)
  have code : coins.nCode = coins.headerFlags := by
    rw [nCode, wraps]
    omega
  obtain ⟨n, packed, -, -, -, -, -, marked⟩ :=
    packed_flags coins.fCoinBase coins.fCoinStake (coins.unspentAt 0) (coins.unspentAt 1) 0
  obtain rfl : n = coins.headerFlags := by
    rw [packed, headerFlags, Nat.zero_add]
  rw [first, Bool.true_or] at marked
  replace marked := marked.mpr rfl
  intro same
  simp only [serialize, append_assoc, version] at same
  rw [unserialize, readVarIntSigned_write (by decide) (by decide), Option.bind_some] at same
  dsimp only at same
  rw [readVarInt_write fits, Option.bind_some] at same
  rw [code, if_pos marked, show coins.headerFlags / 16 + 0 = 0 by omega, readMask,
    Option.bind_some] at same
  obtain ⟨⟨vout, bytes⟩, read, same⟩ := Option.bind_eq_some_iff.mp same
  obtain ⟨⟨nHeight, rest⟩, -, same⟩ := Option.map_eq_some_iff.mp same
  have two := length_readOutputs read
  have clean := congrArg (fun result => result.1.vout.length) same
  rw [← clean] at many
  have shorter := (List.rdropWhile_prefix CTxOut.isNull vout).length_le
  simp only [append_nil, length_cons, length_nil] at two
  simp only [cleanup] at many
  omega

/-- Of a record with nothing spent and whole bytes in the mask, every byte is there. -/
theorem CCoins.maskCode_of_full {coins : CCoins} {n : Nat}
    (alive : ∀ out ∈ coins.vout, out.isNull = false) (length : coins.vout.length = 2 + 8 * n) :
    coins.maskCode = n ∧ coins.unspentAt 0 = true ∧ coins.unspentAt 1 = true := by
  have there : ∀ i, i < coins.vout.length → coins.unspentAt i = true := by
    intro i inside
    rw [unspentAt, getD_eq_getElem _ _ inside, alive _ (getElem_mem inside), Bool.not_false]
  have first := there 0 (by omega)
  have bytes : coins.calcMaskSize = (n, n) := by
    rw [calcMaskSize, show (coins.vout.length - 2 + 7) / 8 = n by omega]
    exact size_of_marked _ fun i inside => there _ (by omega)
  refine ⟨?_, first, there 1 (by omega)⟩
  rw [maskCode, bytes, first, Bool.true_or, if_pos rfl, Nat.sub_zero]

theorem CCoins.unserialize_ne_of_full {coins : CCoins} (version : coins.nVersion = 0)
    (alive : ∀ out ∈ coins.vout, out.isNull = false)
    (length : coins.vout.length = 2 + 8 * 2 ^ 28) :
    unserialize keys (serialize keys coins ++ []) ≠ some (coins.cleanup, []) := by
  obtain ⟨wraps, first, -⟩ := maskCode_of_full alive length
  have clean : coins.cleanup.vout = coins.vout := by
    rw [cleanup, rdropWhile_eq_self_iff]
    intro some_output
    rw [alive _ (getLast_mem some_output)]
    exact Bool.false_ne_true
  exact unserialize_ne_of_wraps wraps first version (by rw [clean]; omega)

end Wrapped

/-- Of a height of 0 the version is lost, a script can have the size of a special one, and so many
outputs wrap the header code. -/
theorem not_read_back :
    (¬ ∀ (undo : CTxInUndo), undo.txout.Storable mainParams → undo.nHeight < 2 ^ 30 →
      0 ≤ undo.nVersion ∧ undo.nVersion < 2 ^ 31 →
      CTxInUndo.unserializeBytes noKeys (CTxInUndo.serializeBytes noKeys undo ++ []) =
        some (undo, [])) ∧
    (¬ ∀ script : CScript,
      CScriptCompressor.unserialize noKeys [] (CScriptCompressor.serialize noKeys script ++ []) =
        some (script, [])) ∧
    ¬ ∀ coins : CCoins, coins.isPruned = false →
      (∀ out ∈ coins.vout, out = CTxOut.null ∨ out.Storable mainParams) →
      0 ≤ coins.nHeight ∧ coins.nHeight < 2 ^ 31 → 0 ≤ coins.nVersion ∧ coins.nVersion < 2 ^ 31 →
      CCoins.unserialize noKeys (CCoins.serialize noKeys coins ++ []) = some (coins.cleanup, []) := by
  refine ⟨?version, ?script, ?outputs⟩
  case version =>
    intro back
    have lost := back { txout := smallOutput, nVersion := 1 } storable_smallOutput (by decide)
      (by decide)
    exact absurd lost (by decide)
  case script =>
    intro back
    refine CScriptCompressor.unserialize_ne_of_wraps ?_ (back (List.replicate (2 ^ 32 - 6) 0))
    rw [length_replicate, CScriptCompressor.nSpecialScripts]
    omega
  case outputs =>
    intro back
    have same : ∀ out ∈ List.replicate (2 + 8 * 2 ^ 28) smallOutput, out = smallOutput :=
      fun out member => (mem_replicate.mp member).2
    refine @CCoins.unserialize_ne_of_full noKeys
      ⟨false, false, List.replicate (2 + 8 * 2 ^ 28) smallOutput, 0, 0⟩ rfl ?_ length_replicate
      (back _ ?_ ?_ (by decide) (by decide))
    · intro out member
      rw [same out member]
      rfl
    · rw [CCoins.isPruned, all_eq_false]
      refine ⟨smallOutput, mem_replicate.mpr ⟨by omega, rfl⟩, ?_⟩
      decide
    · intro out member
      rw [same out member]
      exact Or.inr storable_smallOutput

/-! ## The size -/

namespace CCoins

/-- The bytes of the header code are counted right: no number from which a `VARINT` takes another
byte lies between the code that is measured and the code that is written. -/
def SameHeaderSize (coins : CCoins) : Prop :=
  ∀ least ∈ [0x80, 0x4080, 0x204080, 0x10204080],
    ¬(8 * coins.maskCode + coins.headerFlags < least ∧
      least ≤ 16 * coins.maskCode + coins.headerFlags)

instance (coins : CCoins) : Decidable coins.SameHeaderSize := by
  unfold SameHeaderSize
  infer_instance

/-- The record takes less than 4 GB, and its numbers are of type `int`. -/
structure SizeFits (coins : CCoins) : Prop where
  outputs : (coins.vout.map fun out => out.scriptPubKey.length + 44).sum + 15 < 2 ^ 32
  height : coins.nHeight < 2 ^ 31
  version : coins.nVersion < 2 ^ 31

theorem sizeOfVarIntSigned_le {n : Int} (fits : n < 2 ^ 31) : sizeOfVarIntSigned n ≤ 5 := by
  unfold sizeOfVarIntSigned
  split
  · omega
  · have bound : threshold 4 = 34630287488 := rfl
    exact VarInt.size_le (j := 4) (by omega)

theorem length_outputs_le (keys : KeyCodec) (vout : List CTxOut) :
    ((vout.filter fun out => !out.isNull).map fun out =>
        (CTxOutCompressor.serialize keys out).length).sum + vout.length ≤
      (vout.map fun out => out.scriptPubKey.length + 44).sum := by
  induction vout with
  | nil => exact Nat.le_refl 0
  | cons out vout ih =>
    have one := CTxOutCompressor.length_serialize_le keys out
    rw [filter_cons]
    split
    · simp only [map_cons, sum_cons, length_cons]
      omega
    · simp only [map_cons, sum_cons, length_cons]
      omega

theorem length_serialize (keys : KeyCodec) (coins : CCoins) :
    (serialize keys coins).length = sizeOfVarIntSigned coins.nVersion + VarInt.size coins.nCode +
      coins.calcMaskSize.1 + ((coins.vout.filter fun out => !out.isNull).map fun out =>
        (CTxOutCompressor.serialize keys out).length).sum + sizeOfVarIntSigned coins.nHeight := by
  simp only [serialize, length_append, length_writeVarIntSigned, length_write,
    length_mask, length_flatMap]
  omega

theorem count_of_sizeFits {coins : CCoins} (fits : coins.SizeFits) :
    coins.vout.length + 5 < 2 ^ 31 := by
  have each : ∀ vout : List CTxOut,
      44 * vout.length ≤ (vout.map fun out => out.scriptPubKey.length + 44).sum := by
    intro vout
    induction vout with
    | nil => exact Nat.le_refl 0
    | cons out vout ih =>
      simp only [map_cons, sum_cons, length_cons]
      omega
  have outputs := fits.outputs
  have count := each coins.vout
  omega

theorem length_serialize_lt (keys : KeyCodec) {coins : CCoins} (fits : coins.SizeFits) :
    (serialize keys coins).length < 2 ^ 32 := by
  have version := sizeOfVarIntSigned_le fits.version
  have height := sizeOfVarIntSigned_le fits.height
  have code : VarInt.size coins.nCode ≤ 5 := by
    have small : coins.nCode < 2 ^ 32 := Nat.mod_lt _ (by decide)
    exact VarInt.size_le (j := 4) (small.trans (by decide))
  have mask : coins.calcMaskSize.1 ≤ (coins.vout.length - 2 + 7) / 8 :=
    (SparseMask.size_le _ _).2
  have vout := length_outputs_le keys coins.vout
  have outputs := fits.outputs
  rw [length_serialize]
  omega

theorem sameHeaderSize_iff {coins : CCoins} (count : coins.vout.length + 5 < 2 ^ 31) :
    VarInt.size coins.nCodeOfSize = VarInt.size coins.nCode ↔ coins.SameHeaderSize := by
  have flags := coins.headerFlags_lt
  have bytes := coins.maskCode_le
  rw [nCode_eq count, nCodeOfSize_eq count, size_eq_iff (by omega)]
  constructor
  · intro apart least listed
    simp only [mem_cons, not_mem_nil, or_false] at listed
    rcases listed with rfl | rfl | rfl | rfl
    · exact apart 0
    · exact apart 1
    · exact apart 2
    · exact apart 3
  intro apart j
  match j with
  | 0 => exact apart _ (by decide)
  | 1 => exact apart _ (by decide)
  | 2 => exact apart _ (by decide)
  | 3 => exact apart _ (by decide)
  | j + 4 =>
    -- the code has 32 bits, and the next threshold is above 2^35
    have bound : threshold 4 = 34630287488 := rfl
    have least := threshold_mono (show 4 ≤ j + 4 by omega)
    omega

end CCoins

theorem CCoins.getSerializeSize_eq {keys : KeyCodec} {coins : CCoins} (fits : coins.SizeFits) :
    getSerializeSize keys coins = (serialize keys coins).length ↔ coins.SameHeaderSize := by
  have less := length_serialize_lt keys fits
  have count := count_of_sizeFits fits
  have header := sameHeaderSize_iff count
  have shorter : VarInt.size coins.nCodeOfSize ≤ VarInt.size coins.nCode := by
    refine size_mono ?_
    rw [nCode_eq count, nCodeOfSize_eq count]
    omega
  rw [← header, getSerializeSize]
  rw [length_serialize] at less ⊢
  omega

/-- The size of a record is right if and only if the header code that is written takes no more bytes
than the one that is measured; the size of undo data is right always. -/
theorem getSerializeSize_eq_iff (keys : KeyCodec) :
    (∀ coins : CCoins, coins.isPruned = false → coins.SizeFits →
      (CCoins.getSerializeSize keys coins = (CCoins.serialize keys coins).length ↔
        coins.SameHeaderSize)) ∧
    ∀ undo : CTxInUndo, undo.txout.scriptPubKey.length + 53 < 2 ^ 32 → undo.nVersion < 2 ^ 31 →
      CTxInUndo.getSerializeSize keys undo = (CTxInUndo.serializeBytes keys undo).length := by
  refine ⟨fun coins unspent fits => CCoins.getSerializeSize_eq fits, fun undo script version => ?_⟩
  have output := CTxOutCompressor.length_serialize_le keys undo.txout
  have number := CCoins.sizeOfVarIntSigned_le version
  have code : VarInt.size undo.nCode ≤ 5 := by
    have small : undo.nCode < 2 ^ 32 := Nat.mod_lt _ (by decide)
    exact VarInt.size_le (j := 4) (small.trans (by decide))
  rw [CTxInUndo.getSerializeSize, CTxInUndo.serializeBytes, CTxInUndo.serialize]
  simp only [length_append, length_write]
  split
  · rw [length_writeVarIntSigned]
    omega
  · rw [length_nil]
    omega

/-- Sixty-six outputs: the code that is written has two bytes, and one is counted. -/
theorem getSerializeSize_short :
    ¬ ∀ coins : CCoins, coins.isPruned = false →
      CCoins.getSerializeSize noKeys coins = (CCoins.serialize noKeys coins).length := by
  intro same
  have alive : ∀ out ∈ List.replicate 66 smallOutput, out.isNull = false := by
    intro out member
    rw [(mem_replicate.mp member).2]
    rfl
  have agree := (CCoins.getSerializeSize_eq
    ⟨by rw [map_replicate, sum_replicate_nat]; decide, by decide, by decide⟩).mp
    (same { vout := List.replicate 66 smallOutput } rfl)
  refine agree 0x80 (by decide) ?_
  decide

theorem getSerializeSize_eq_iff_small :
    CCoins.getSerializeSize noKeys { vout := [smallOutput] } =
        (CCoins.serialize noKeys { vout := [smallOutput] }).length ∧
      CTxInUndo.getSerializeSize noKeys { txout := smallOutput } =
        (CTxInUndo.serializeBytes noKeys { txout := smallOutput }).length :=
  ⟨((getSerializeSize_eq_iff noKeys).1 { vout := [smallOutput] } rfl
      ⟨by decide, by decide, by decide⟩).mpr (by decide),
    (getSerializeSize_eq_iff noKeys).2 { txout := smallOutput } (by decide) (by decide)⟩

end Esbcoin
