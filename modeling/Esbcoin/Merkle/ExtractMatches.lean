import Esbcoin.Merkle.PartialMerkleTree
import Esbcoin.Serialize

/-!
# What a partial merkle tree gives back

The serialised form of `CPartialMerkleTree` (`src/merkleblock.h:83-110`), whose flags are packed in
bytes, and the round trip of `ExtractMatches`.
-/

namespace Esbcoin

open Bytes PairedLevels PartialTree List CTransaction

namespace CPartialMerkleTree

/-! ## Flags in bytes -/

/-- One turn of the loop that packs the flags (`merkleblock.h:106-107`). -/
def packBit (vBits : List Bool) (vBytes : List UInt8) (p : Nat) : List UInt8 :=
  vBytes.modify (p / 8) fun byte =>
    UInt8.ofNat (byte.toNat ||| (vBits.getD p false).toNat <<< (p % 8))

/-- `vBytes` as it is written (`merkleblock.h:105-107`). -/
def packBits (vBits : List Bool) : List UInt8 :=
  (List.range vBits.length).foldl (packBit vBits) (List.replicate ((vBits.length + 7) / 8) 0)

/-- `vBits` as it is read (`merkleblock.h:100-102`). -/
def unpackBits (vBytes : List UInt8) : List Bool :=
  (List.range (vBytes.length * 8)).map fun p =>
    (vBytes.getD (p / 8) 0).toNat &&& 1 <<< (p % 8) != 0

/-- The flag number `p` of the bytes. -/
def bitAt (vBytes : List UInt8) (p : Nat) : Bool := (vBytes.getD (p / 8) 0).toNat.testBit (p % 8)

theorem unpackBits_eq (vBytes : List UInt8) :
    unpackBits vBytes = (List.range (vBytes.length * 8)).map (bitAt vBytes) := by
  unfold unpackBits
  congr 1
  funext p
  rw [Nat.one_shiftLeft, Nat.and_two_pow, bitAt]
  cases (vBytes.getD (p / 8) 0).toNat.testBit (p % 8) with
  | false => simp
  | true => simp

@[simp] theorem length_packBit (vBits : List Bool) (vBytes : List UInt8) (p : Nat) :
    (packBit vBits vBytes p).length = vBytes.length := by
  rw [packBit, length_modify]

theorem bitAt_packBit {vBits : List Bool} {vBytes : List UInt8} {p : Nat}
    (inside : p / 8 < vBytes.length) (q : Nat) :
    bitAt (packBit vBits vBytes p) q =
      (bitAt vBytes q || (decide (q = p) && vBits.getD p false)) := by
  unfold bitAt packBit
  generalize vBits.getD p false = flag
  rw [getD_eq_getElem?_getD, getD_eq_getElem?_getD]
  by_cases here : p / 8 = q / 8
  · rw [← here, List.getElem?_modify_eq, List.getElem?_eq_getElem inside, Option.map_eq_map,
      Option.map_some, Option.getD_some, Option.getD_some]
    have small : (vBytes[p / 8].toNat ||| flag.toNat <<< (p % 8)) < 2 ^ 8 := by
      refine Nat.or_lt_two_pow vBytes[p / 8].toNat_lt ?_
      have power : 2 ^ (p % 8) ≤ 2 ^ 7 := Nat.pow_le_pow_right (by decide) (by omega)
      rw [Nat.shiftLeft_eq]
      calc flag.toNat * 2 ^ (p % 8) ≤ 1 * 2 ^ 7 := Nat.mul_le_mul (Bool.toNat_le flag) power
        _ < 2 ^ 8 := by decide
    rw [UInt8.toNat_ofNat', Nat.mod_eq_of_lt small, Nat.testBit_or, Nat.testBit_shiftLeft]
    congr 1
    by_cases same : q = p
    · rw [same]
      cases flag with
      | false => simp
      | true => simp
    have other : q % 8 ≠ p % 8 := fun slot => same (by omega)
    rw [decide_eq_false same, Bool.false_and]
    by_cases above : p % 8 ≤ q % 8
    · rw [decide_eq_true above, Bool.true_and]
      refine Nat.testBit_lt_two_pow (Nat.lt_of_le_of_lt (Bool.toNat_le _) ?_)
      exact Nat.one_lt_two_pow (by omega)
    · rw [decide_eq_false above, Bool.false_and]
  · rw [List.getElem?_modify_ne _ _ here, decide_eq_false (by rintro rfl; exact here rfl)]
    simp

/-- The flags that are packed are read back, with what fills the last byte. -/
theorem bitAt_foldl_packBit (vBits : List Bool) (nBits : Nat) {vBytes : List UInt8}
    (inside : nBits ≤ vBytes.length * 8) (q : Nat) :
    bitAt ((List.range nBits).foldl (packBit vBits) vBytes) q =
        (bitAt vBytes q || (decide (q < nBits) && vBits.getD q false)) ∧
      ((List.range nBits).foldl (packBit vBits) vBytes).length = vBytes.length := by
  induction nBits with
  | zero => simp
  | succ nBits ih =>
    obtain ⟨bits, length⟩ := ih (by omega)
    rw [range_succ, foldl_append, foldl_cons, foldl_nil]
    refine ⟨?_, by rw [length_packBit, length]⟩
    rw [bitAt_packBit (by omega), bits, Bool.or_assoc]
    congr 1
    by_cases new : q = nBits
    · simp [new]
    · have bound : q < nBits + 1 ↔ q < nBits := by omega
      simp [new, bound]

@[simp] theorem length_packBits (vBits : List Bool) :
    (packBits vBits).length = (vBits.length + 7) / 8 := by
  have room : vBits.length ≤ (List.replicate ((vBits.length + 7) / 8) (0 : UInt8)).length * 8 := by
    rw [length_replicate]
    omega
  rw [packBits, (bitAt_foldl_packBit vBits vBits.length room 0).2, length_replicate]

theorem unpackBits_packBits (vBits : List Bool) :
    ∃ padding, unpackBits (packBits vBits) = vBits ++ padding ∧
      (vBits.length + 7) / 8 = (vBits.length + padding.length + 7) / 8 := by
  have room : vBits.length ≤ (List.replicate ((vBits.length + 7) / 8) (0 : UInt8)).length * 8 := by
    rw [length_replicate]
    omega
  refine ⟨List.replicate ((vBits.length + 7) / 8 * 8 - vBits.length) false, ?_, by
    rw [length_replicate]
    omega⟩
  have packed := bitAt_foldl_packBit vBits vBits.length room
  rw [unpackBits_eq, length_packBits]
  refine ext_getElem ?_ fun q inside inside' => ?_
  · rw [length_map, length_range, length_append, length_replicate]
    omega
  have blank : bitAt (List.replicate ((vBits.length + 7) / 8) 0) q = false := by
    simp only [bitAt, getD_eq_getElem?_getD, List.getElem?_replicate]
    split <;> simp
  rw [getElem_map, getElem_range, packBits, (packed q).1, blank, Bool.false_or]
  by_cases short : q < vBits.length
  · rw [getElem_append_left short]
    simp [short]
  · rw [getElem_append_right (by omega)]
    simp [short]

/-! ## The serialised form -/

/-- A hash as bytes. -/
def writeHash (hash : UInt256) : List UInt8 := littleEndian 32 hash.toNat

/-- Reads a hash. -/
def readHash (s : List UInt8) : Option (UInt256 × List UInt8) :=
  (readUnsigned 32 s).map fun result => (BitVec.ofNat 256 result.1, result.2)

theorem reads_hash : Reads (fun _ => True) writeHash readHash :=
  (reads_littleEndian 32).map (BitVec.ofNat 256) BitVec.toNat (fun hash _ => hash.isLt)
    (fun _ _ => trivial) (fun _ _ => BitVec.ofNat_toNat ..)
    fun n small => (BitVec.toNat_ofNat n 256).trans (Nat.mod_eq_of_lt small)

/-- `SerializationOp` when the tree is written (`merkleblock.h:94-109`). -/
def serialize (tree : CPartialMerkleTree) : List UInt8 :=
  littleEndian 4 tree.nTransactions.toNat ++ sizedElements writeHash tree.vHash ++
    sizedBytes (packBits tree.vBits)

/-- `SerializationOp` when the tree is read. -/
def unserialize (s : List UInt8) : Option (CPartialMerkleTree × List UInt8) :=
  (readUnsigned 4 s).bind fun (nTransactions, s) =>
    (readSizedElements readHash s).bind fun (vHash, s) =>
      (readSizedBytes MAX_SIZE s).map fun (vBytes, s) =>
        (⟨UInt32.ofNat nTransactions, unpackBits vBytes, vHash, false⟩, s)

/-- A tree that is written can be read. -/
theorem unserialize_serialize {tree : CPartialMerkleTree} (hashes : tree.vHash.length ≤ MAX_SIZE)
    (bits : tree.vBits.length ≤ MAX_SIZE) (rest : List UInt8) :
    unserialize (tree.serialize ++ rest) =
      some ({ tree with vBits := unpackBits (packBits tree.vBits), fBad := false }, rest) := by
  have count : readUnsigned 4 (tree.serialize ++ rest) =
      some (tree.nTransactions.toNat,
        sizedElements writeHash tree.vHash ++ (sizedBytes (packBits tree.vBits) ++ rest)) := by
    refine (reads_littleEndian 4 _ _ _).mpr ⟨tree.nTransactions.toNat_lt, ?_⟩
    simp only [serialize, append_assoc]
  have values := (reads_sizedElements reads_hash
    (sizedElements writeHash tree.vHash ++ (sizedBytes (packBits tree.vBits) ++ rest))
    tree.vHash (sizedBytes (packBits tree.vBits) ++ rest)).mpr
      ⟨⟨hashes, fun _ _ => trivial⟩, rfl⟩
  have packed : (packBits tree.vBits).length ≤ MAX_SIZE := by
    rw [length_packBits]
    omega
  have flags := (reads_sizedBytes MAX_SIZE (sizedBytes (packBits tree.vBits) ++ rest)
    (packBits tree.vBits) rest).mpr ⟨⟨packed, packed⟩, rfl⟩
  rw [unserialize, count, Option.bind_some]
  dsimp only
  rw [values, Option.bind_some]
  rw [flags, Option.map_some, UInt32.ofNat_toNat]

/-! ## The round trip -/

section RoundTrip

variable (hash : NodeHash) {vtx : List CTransaction} {vMatch : List Bool}

/-- The hashes that `vMatch` picks. -/
def matched (vTxid : List UInt256) (vMatch : List Bool) : List UInt256 :=
  ((vTxid.zip vMatch).filter Prod.snd).map Prod.fst

theorem matched_eq {vTxid : List UInt256} (length : vMatch.length = vTxid.length) :
    matched vTxid vMatch =
      ((List.range vTxid.length).filter fun p => vMatch.getD p false).map
        fun p => vTxid.getD p 0 := by
  have pairs : vTxid.zip vMatch =
      (List.range vTxid.length).map fun p => (vTxid.getD p 0, vMatch.getD p false) := by
    refine ext_getElem (by simp [length]) fun p inside inside' => ?_
    rw [length_map, length_range] at inside'
    simp [inside', length]
  rw [matched, pairs, filter_map, map_map]
  rfl

/-- A tree that is built, its flags filled up. -/
def padded (vTxid : List UInt256) (vMatch padding : List Bool) : CPartialMerkleTree :=
  let t := prunedTree hash vTxid vMatch (height vTxid.length) 0
  ⟨UInt32.ofNat vTxid.length, t.flags ++ padding, t.values, false⟩

theorem padded_nil {vTxid : List UInt256} (some : vTxid ≠ []) :
    padded hash vTxid vMatch [] = build hash vTxid vMatch := by
  rw [build_eq some, padded, append_nil]

/-- It spells the part of the merkle tree that leads to the matches. -/
theorem extractable_padded {vTxid : List UInt256} (some : vTxid ≠ [])
    (bounded : vTxid.length ≤ maxPartialTransactions) {padding : List Bool}
    (whole : ((build hash vTxid vMatch).vBits.length + 7) / 8 =
      ((build hash vTxid vMatch).vBits.length + padding.length + 7) / 8) :
    Extractable (padded hash vTxid vMatch padding)
      (prunedTree hash vTxid vMatch (height vTxid.length) 0) padding := by
  have positive := length_pos_iff.mpr some
  have root : 0 < width vTxid.length (height vTxid.length) := by
    rw [width_height positive]
    exact Nat.one_pos
  have limit : maxPartialTransactions = 33333 := rfl
  have count : (padded hash vTxid vMatch padding).nTransactions.toNat = vTxid.length := by
    rw [padded, UInt32.toNat_ofNat', Nat.mod_eq_of_lt (by omega)]
  have values : (prunedTree hash vTxid vMatch (height vTxid.length) 0).values.length ≤
      (under vTxid.length (height vTxid.length) 0).length :=
    length_values_prune root
  rw [under_top positive, length_range] at values
  rw [build_eq some] at whole
  refine ⟨⟨?_, rfl, rfl⟩, ?_, ?_, ?_, whole, rfl⟩
  · rw [count]
    exact fits_prune ..
  · rw [count]
    exact positive
  · rw [count]
    exact bounded
  · rw [count]
    exact values

/-- What is extracted of it, whatever fills the last byte. -/
theorem extractMatches_padded {vTxid : List UInt256} (some : vTxid ≠ [])
    (bounded : vTxid.length ≤ maxPartialTransactions) (length : vMatch.length = vTxid.length)
    {padding : List Bool}
    (whole : ((build hash vTxid vMatch).vBits.length + 7) / 8 =
      ((build hash vTxid vMatch).vBits.length + padding.length + 7) / 8) :
    (padded hash vTxid vMatch padding).extractMatches hash =
      ((top hash vTxid).getD 0, matched vTxid vMatch) := by
  have positive := length_pos_iff.mpr some
  have root : 0 < width vTxid.length (height vTxid.length) := by
    rw [width_height positive]
    exact Nat.one_pos
  rw [extractMatches_of_extractable (extractable_padded hash some bounded whole)]
  congr 1
  · obtain ⟨a, single, found⟩ := level_height hash some
    have joined : (level hash vTxid (height vTxid.length))[0]? =
        Option.some ((prunedTree hash vTxid vMatch (height vTxid.length) 0).top hash) :=
      top_prune root
    rw [single] at joined
    rw [found]
    exact (Option.some.inj joined).symm
  · rw [matched_eq length, ← under_top positive]
    exact marks_prune root

theorem height_le_of_bounded {n : Nat} (bounded : n ≤ maxPartialTransactions) :
    height n ≤ 16 := by
  by_contra high
  have wide := (one_lt_width_iff n 16).mpr (Nat.lt_of_not_le high)
  rw [width_eq] at wide
  have limit : maxPartialTransactions = 33333 := rfl
  omega

/-- A tree that is built is small enough to be read. -/
theorem length_build_le {vTxid : List UInt256} (some : vTxid ≠ [])
    (bounded : vTxid.length ≤ maxPartialTransactions) (vMatch : List Bool) :
    (build hash vTxid vMatch).vHash.length ≤ MAX_SIZE ∧
      (build hash vTxid vMatch).vBits.length ≤ MAX_SIZE := by
  have able := @extractable_padded hash vMatch _ some bounded [] rfl
  rw [padded_nil hash some] at able
  have flags := length_flags_lt able.fits
  have low := height_le_of_bounded able.bounded
  have power : 2 ^ (height (build hash vTxid vMatch).nTransactions.toNat + 1) ≤ 2 ^ 17 :=
    Nat.pow_le_pow_right (by decide) (by omega)
  have limit : maxPartialTransactions ≤ MAX_SIZE := by decide
  have size : 2 ^ 17 ≤ MAX_SIZE := by decide
  rw [able.bits, able.hashes, append_nil]
  exact ⟨able.few.trans (able.bounded.trans limit), by omega⟩

/-- `ExtractMatches` of `CPartialMerkleTree(vTxid, vMatch)` returns the merkle root and exactly the
hashes that `vMatch` picks, also when the tree was written and read. -/
theorem extractMatches_build (some : 1 ≤ vtx.length) (bounded : vtx.length ≤ maxPartialTransactions)
    (length : vMatch.length = vtx.length) :
    let tree := build hash (vtx.map getHash) vMatch
    let extracted :=
      ((buildMerkleTree hash vtx).root, matched (vtx.map getHash) vMatch)
    tree.extractMatches hash = extracted ∧
      ∀ rest : List UInt8, ∃ read, unserialize (tree.serialize ++ rest) = Option.some (read, rest) ∧
        read.extractMatches hash = extracted := by
  have nonempty : vtx.map getHash ≠ [] := by
    intro none
    rw [map_eq_nil_iff.mp none] at some
    exact absurd some (by decide)
  rw [← length_map getHash] at bounded length
  intro tree extracted
  have extracts := @extractMatches_padded hash vMatch _ nonempty bounded length
  rw [← buildMerkleTree_root] at extracts
  constructor
  · have built := @extracts [] rfl
    rw [padded_nil hash nonempty] at built
    exact built
  intro rest
  obtain ⟨padding, unpacked, whole⟩ := unpackBits_packBits tree.vBits
  obtain ⟨hashes, bits⟩ := length_build_le hash nonempty bounded vMatch
  refine ⟨_, unserialize_serialize hashes bits rest, ?_⟩
  have filled : { tree with vBits := tree.vBits ++ padding, fBad := false } =
      padded hash (vtx.map getHash) vMatch padding := by
    dsimp only [tree]
    rw [build_eq nonempty, padded]
  rw [unpacked, filled]
  exact extracts whole

/-- The first and the last of three transactions, from a tree that was written and read. -/
theorem extractMatches_build_three :
    ∃ read, unserialize (build sampleNodeHash [1, 2, 3] [true, false, true]).serialize =
        Option.some (read, []) ∧
      read.extractMatches sampleNodeHash =
        ((buildMerkleTree sampleNodeHash ([1, 2, 3].map hashedTx)).root, [1, 3]) := by
  have built := @extractMatches_build sampleNodeHash ([1, 2, 3].map hashedTx) [true, false, true]
    (by decide) (by decide) rfl
  obtain ⟨read, unserialized, extracted⟩ := built.2 []
  rw [append_nil] at unserialized
  exact ⟨read, unserialized, extracted⟩

end RoundTrip

end CPartialMerkleTree

end Esbcoin
