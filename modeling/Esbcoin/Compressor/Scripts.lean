import Mathlib.Tactic.IntervalCases
import Esbcoin.Compressor.Amounts
import Esbcoin.Destination

/-!
# Compressed outputs

Rendering of `CScriptCompressor` and `CTxOutCompressor` (`src/compressor.h`, `src/compressor.cpp`)
over a byte stream: a reader takes what it reads off the front and fails at the end of the data. The
curve is a parameter.
-/

namespace Esbcoin

open List VarInt

/-- `ReadVarInt` into an unsigned type (`serialize.h:417-432`): what leaves the type is lost. -/
def readVarInt (bits : Nat) (bytes : List UInt8) : Option (Nat × List UInt8) :=
  (VarInt.read bytes).map fun (n, rest) => (n % 2 ^ bits, rest)

theorem readVarInt_write {bits n : Nat} (fits : n < 2 ^ bits) (rest : List UInt8) :
    readVarInt bits (write n ++ rest) = some (n, rest) := by
  rw [readVarInt, read_write, Option.map_some]
  dsimp only
  rw [Nat.mod_eq_of_lt fits]

/-- What the compressor asks of the curve, about the bytes of public keys. -/
structure KeyCodec where
  /-- `CPubKey::IsFullyValid` (`pubkey.cpp:54-67`). -/
  isFullyValid : List UInt8 → Bool
  /-- `CPubKey::Decompress` (`pubkey.cpp:69-87`). -/
  decompress : List UInt8 → Option (List UInt8)

/-- A key on the curve is found again from its first coordinate and the parity of the second. -/
def KeyCodec.Inverts (keys : KeyCodec) : Prop :=
  ∀ key : List UInt8, key.length = 65 → key[0]? = some 4 → keys.isFullyValid key = true →
    keys.decompress (UInt8.ofNat (2 + (key.getD 64 0).toNat % 2) :: (key.drop 1).take 32) = some key

namespace CScriptCompressor

open CScript

/-- `nSpecialScripts` (`compressor.h:36`). -/
def nSpecialScripts : Nat := 6

/-- `CScriptCompressor::IsToKeyID` (`compressor.cpp:13-20`). -/
def isToKeyID (script : CScript) : Option (List UInt8) :=
  if script.length = 25 ∧ script[0]? = some OP_DUP ∧ script[1]? = some OP_HASH160 ∧
      script[2]? = some 20 ∧ script[23]? = some OP_EQUALVERIFY ∧ script[24]? = some OP_CHECKSIG then
    some ((script.drop 3).take 20)
  else none

/-- `CScriptCompressor::IsToScriptID` (`compressor.cpp:22-29`). -/
def isToScriptID (script : CScript) : Option (List UInt8) :=
  if script.length = 23 ∧ script[0]? = some OP_HASH160 ∧ script[1]? = some 20 ∧
      script[22]? = some OP_EQUAL then
    some ((script.drop 2).take 20)
  else none

/-- `CScriptCompressor::IsToPubKey` (`compressor.cpp:31-42`). -/
def isToPubKey (keys : KeyCodec) (script : CScript) : Option (List UInt8) :=
  if script.length = 35 ∧ script[0]? = some 33 ∧ script[34]? = some OP_CHECKSIG ∧
      (script[1]? = some 2 ∨ script[1]? = some 3) then
    some ((script.drop 1).take 33)
  else if script.length = 67 ∧ script[0]? = some 65 ∧ script[66]? = some OP_CHECKSIG ∧
      script[1]? = some 4 then
    let pubkey := (script.drop 1).take 65
    if keys.isFullyValid pubkey then some pubkey else none
  else none

/-- `CScriptCompressor::Compress` (`compressor.cpp:44-73`). -/
def compress (keys : KeyCodec) (script : CScript) : Option (List UInt8) :=
  match isToKeyID script with
  | some keyID => some (0x00 :: keyID)
  | none =>
    match isToScriptID script with
    | some scriptID => some (0x01 :: scriptID)
    | none =>
      match isToPubKey keys script with
      | none => none
      | some pubkey =>
        let header := pubkey.getD 0 0
        if header = 2 ∨ header = 3 then some (header :: (pubkey.drop 1).take 32)
        else if header = 4 then
          some ((0x04 ||| (pubkey.getD 64 0 &&& 0x01)) :: (pubkey.drop 1).take 32)
        else none

/-- `CScriptCompressor::GetSpecialSize` (`compressor.cpp:75-82`). -/
def getSpecialSize (nSize : Nat) : Nat :=
  if nSize = 0 ∨ nSize = 1 then 20
  else if nSize = 2 ∨ nSize = 3 ∨ nSize = 4 ∨ nSize = 5 then 32
  else 0

/-- `CScriptCompressor::Decompress` (`compressor.cpp:84-126`); `none` where it leaves the script as
it is. -/
def decompress (keys : KeyCodec) (nSize : Nat) (data : List UInt8) : Option CScript :=
  if nSize = 0 then
    some ([OP_DUP, OP_HASH160, 20] ++ data.take 20 ++ [OP_EQUALVERIFY, OP_CHECKSIG])
  else if nSize = 1 then some ([OP_HASH160, 20] ++ data.take 20 ++ [OP_EQUAL])
  else if nSize = 2 ∨ nSize = 3 then
    some ([33, UInt8.ofNat nSize] ++ data.take 32 ++ [OP_CHECKSIG])
  else if nSize = 4 ∨ nSize = 5 then
    (keys.decompress (UInt8.ofNat (nSize - 2) :: data.take 32)).map fun pubkey =>
      [65] ++ pubkey ++ [OP_CHECKSIG]
  else none

/-- `CScriptCompressor::Serialize` (`compressor.h:63-74`); the size is an `unsigned int`. -/
def serialize (keys : KeyCodec) (script : CScript) : List UInt8 :=
  match compress keys script with
  | some compr => compr
  | none => write ((script.length + nSpecialScripts) % 2 ^ 32) ++ script

/-- `CScriptCompressor::Unserialize` (`compressor.h:76-90`) over what the script is. -/
def unserialize (keys : KeyCodec) (script : CScript) (bytes : List UInt8) :
    Option (CScript × List UInt8) :=
  (readVarInt 32 bytes).bind fun (nSize, bytes) =>
    if nSize < nSpecialScripts then
      (Bytes.takeBytes (getSpecialSize nSize) bytes).map fun (vch, rest) =>
        ((decompress keys nSize vch).getD script, rest)
    else Bytes.takeBytes (nSize - nSpecialScripts) bytes

/-! ### The special forms -/

/-- A list between two fixed ends. -/
theorem eq_framed (front : List UInt8) (n : Nat) (back : List UInt8) {l : List UInt8}
    (length : l.length = front.length + n + back.length)
    (begins : ∀ i < front.length, l[i]? = front[i]?)
    (ends : ∀ i < back.length, l[front.length + n + i]? = back[i]?) :
    l = front ++ (l.drop front.length).take n ++ back := by
  have middle : ((l.drop front.length).take n).length = n := by
    rw [length_take, length_drop]
    omega
  refine ext_getElem? fun i => ?_
  by_cases inFront : i < front.length
  · rw [begins i inFront, append_assoc, List.getElem?_append_left inFront]
  by_cases inMiddle : i < front.length + n
  · rw [append_assoc, List.getElem?_append_right (by omega),
      List.getElem?_append_left (by omega), List.getElem?_take, if_pos (by omega),
      List.getElem?_drop]
    congr 1
    omega
  rw [List.getElem?_append_right (by rw [length_append]; omega), length_append, middle]
  by_cases inBack : i < l.length
  · have last := ends (i - (front.length + n)) (by omega)
    rw [show front.length + n + (i - (front.length + n)) = i by omega] at last
    exact last
  · rw [List.getElem?_eq_none (by omega), List.getElem?_eq_none (by omega)]

variable {script : CScript} {keys : KeyCodec}

theorem isToKeyID_eq_some {keyID : List UInt8} (found : isToKeyID script = some keyID) :
    keyID.length = 20 ∧
      script = [OP_DUP, OP_HASH160, 20] ++ keyID ++ [OP_EQUALVERIFY, OP_CHECKSIG] := by
  unfold isToKeyID at found
  split at found
  · rename_i form
    obtain ⟨length, dup, hash, size, verify, check⟩ := form
    obtain rfl := Option.some.inj found
    refine ⟨by simp [length], ?_⟩
    refine eq_framed [OP_DUP, OP_HASH160, 20] 20 [OP_EQUALVERIFY, OP_CHECKSIG] length ?_ ?_
    · intro i inside
      simp only [length_cons, length_nil] at inside
      interval_cases i <;> assumption
    · intro i inside
      simp only [length_cons, length_nil] at inside
      interval_cases i <;> assumption
  · cases found

theorem isToScriptID_eq_some {scriptID : List UInt8} (found : isToScriptID script = some scriptID) :
    scriptID.length = 20 ∧ script = [OP_HASH160, 20] ++ scriptID ++ [OP_EQUAL] := by
  unfold isToScriptID at found
  split at found
  · rename_i form
    obtain ⟨length, hash, size, equal⟩ := form
    obtain rfl := Option.some.inj found
    refine ⟨by simp [length], ?_⟩
    refine eq_framed [OP_HASH160, 20] 20 [OP_EQUAL] length ?_ ?_
    · intro i inside
      simp only [length_cons, length_nil] at inside
      interval_cases i <;> assumption
    intro i inside
    simp only [length_cons, length_nil] at inside
    interval_cases i
    assumption
  · cases found

theorem isToPubKey_eq_some {pubkey : List UInt8} (found : isToPubKey keys script = some pubkey) :
    (pubkey.length = 33 ∧ (pubkey[0]? = some 2 ∨ pubkey[0]? = some 3) ∧
        script = [33] ++ pubkey ++ [OP_CHECKSIG]) ∨
      (pubkey.length = 65 ∧ pubkey[0]? = some 4 ∧ keys.isFullyValid pubkey = true ∧
        script = [65] ++ pubkey ++ [OP_CHECKSIG]) := by
  have header : ∀ n, ((script.drop 1).take (n + 1))[0]? = script[1]? := by
    intro n
    rw [List.getElem?_take, if_pos (Nat.succ_pos n), List.getElem?_drop]
  unfold isToPubKey at found
  split at found
  · rename_i form
    obtain ⟨length, size, check, parity⟩ := form
    obtain rfl := Option.some.inj found
    refine Or.inl ⟨by simp [length], by rw [header]; exact parity, ?_⟩
    refine eq_framed [33] 33 [OP_CHECKSIG] length ?_ ?_
    · intro i inside
      obtain rfl : i = 0 := Nat.lt_one_iff.mp inside
      exact size
    · intro i inside
      obtain rfl : i = 0 := Nat.lt_one_iff.mp inside
      exact check
  split at found
  · rename_i form
    obtain ⟨length, size, check, uncompressed⟩ := form
    dsimp only at found
    split at found
    · rename_i valid
      obtain rfl := Option.some.inj found
      refine Or.inr ⟨by simp [length], by rw [header]; exact uncompressed, valid, ?_⟩
      refine eq_framed [65] 65 [OP_CHECKSIG] length ?_ ?_
      · intro i inside
        obtain rfl : i = 0 := Nat.lt_one_iff.mp inside
        exact size
      · intro i inside
        obtain rfl : i = 0 := Nat.lt_one_iff.mp inside
        exact check
    · cases found
  · cases found

/-- What `Compress` gives is a special size and as many bytes, which `Decompress` turns into the
script. -/
theorem decompress_compress (inverts : keys.Inverts) {compr : List UInt8}
    (found : compress keys script = some compr) :
    ∃ (kind : UInt8) (data : List UInt8), compr = kind :: data ∧ kind.toNat < nSpecialScripts ∧
      data.length = getSpecialSize kind.toNat ∧ decompress keys kind.toNat data = some script := by
  unfold compress at found
  split at found
  · rename_i keyID toKeyID
    obtain ⟨size, rfl⟩ := isToKeyID_eq_some toKeyID
    refine ⟨0, keyID, (Option.some.inj found).symm, by decide, size, ?_⟩
    rw [decompress, if_pos (by rfl), take_of_length_le (Nat.le_of_eq size)]
  split at found
  · rename_i scriptID toScriptID
    obtain ⟨size, rfl⟩ := isToScriptID_eq_some toScriptID
    refine ⟨1, scriptID, (Option.some.inj found).symm, by decide, size, ?_⟩
    rw [decompress, if_neg (by decide), if_pos (by rfl), take_of_length_le (Nat.le_of_eq size)]
  split at found
  · cases found
  rename_i pubkey toPubKey
  have taken : ((pubkey.drop 1).take 32).length = min 32 (pubkey.length - 1) := by
    rw [length_take, length_drop]
  rcases isToPubKey_eq_some toPubKey with ⟨size, parity, rfl⟩ | ⟨size, header, valid, rfl⟩
  · -- a compressed key is its own header and the 32 bytes behind it
    obtain ⟨header, rest, rfl⟩ := exists_cons_of_length_pos (show 0 < pubkey.length by omega)
    simp only [List.getElem?_cons_zero, Option.some.injEq] at parity
    rw [getD_cons_zero, if_pos parity] at found
    refine ⟨header, rest.take 32, (Option.some.inj found).symm, ?_, ?_, ?_⟩
    · rcases parity with rfl | rfl <;> decide
    · rw [length_cons] at size
      rw [length_take, show rest.length = 32 by omega]
      rcases parity with rfl | rfl <;> rfl
    rw [length_cons] at size
    rw [take_of_length_le (show rest.length ≤ 32 by omega)]
    rcases parity with rfl | rfl <;>
      simp [decompress, take_of_length_le (show rest.length ≤ 32 by omega)]
  -- the parity of the last byte and the first coordinate
  have first : pubkey.getD 0 0 = 4 := by
    rw [getD_eq_getElem?_getD, header]
    rfl
  rw [first, if_neg (by decide), if_pos rfl] at found
  have back := inverts pubkey size header valid
  generalize pubkey.getD 64 0 = last at found back
  have kind : (0x04 ||| (last &&& 0x01)).toNat = 4 + last.toNat % 2 := by
    rw [UInt8.toNat_or, UInt8.toNat_and, show (0x01 : UInt8).toNat = 1 from rfl,
      Nat.and_one_is_mod]
    rcases Nat.mod_two_eq_zero_or_one last.toNat with even | odd
    · rw [even]
      rfl
    · rw [odd]
      rfl
  refine ⟨_, _, (Option.some.inj found).symm, ?_, ?_, ?_⟩
  · rw [kind, nSpecialScripts]
    omega
  · rw [kind, taken, size, getSpecialSize, if_neg (by omega), if_pos (by omega)]
    rfl
  have code : 4 + last.toNat % 2 - 2 = 2 + last.toNat % 2 := by omega
  rw [kind, decompress, if_neg (by omega), if_neg (by omega), if_neg (by omega),
    if_pos (by omega), code, take_take, Nat.min_self, back]
  rfl

/-- A script is read back, whatever stood in its place, with what follows it left. -/
theorem unserialize_serialize (inverts : keys.Inverts)
    (size : script.length + nSpecialScripts < 2 ^ 32) (old : CScript) (rest : List UInt8) :
    unserialize keys old (serialize keys script ++ rest) = some (script, rest) := by
  unfold serialize
  split
  · rename_i compr found
    obtain ⟨kind, data, rfl, special, length, back⟩ := decompress_compress inverts found
    have read : readVarInt 32 (kind :: data ++ rest) = some (kind.toNat, data ++ rest) := by
      have small : kind.toNat < 128 := Nat.lt_of_lt_of_le special (by decide)
      have one := @readVarInt_write 32 kind.toNat (by omega) (data ++ rest)
      rw [write_small _ (by omega), UInt8.ofNat_toNat] at one
      exact one
    have taken : Bytes.takeBytes (getSpecialSize kind.toNat) (data ++ rest) = some (data, rest) :=
      (Bytes.reads_takeBytes _ _ _ _).mpr ⟨length, rfl⟩
    rw [unserialize, read, Option.bind_some]
    dsimp only
    rw [if_pos special, taken, Option.map_some]
    rw [back, Option.getD_some]
  · rw [Nat.mod_eq_of_lt size, append_assoc, unserialize, readVarInt_write size,
      Option.bind_some]
    dsimp only
    rw [if_neg (by omega), Nat.add_sub_cancel]
    exact (Bytes.reads_takeBytes _ _ _ _).mpr ⟨rfl, rfl⟩

/-- A script takes a header of 33 bytes more at most. -/
theorem length_serialize_le (keys : KeyCodec) (script : CScript) :
    (serialize keys script).length ≤ script.length + 33 := by
  unfold serialize
  split
  · rename_i compr found
    have special : compr.length ≤ 33 := by
      unfold compress at found
      have key : ∀ pubkey : List UInt8, ((pubkey.drop 1).take 32).length ≤ 32 :=
        fun pubkey => length_take_le _ _
      split at found
      · rename_i keyID toKeyID
        obtain rfl := Option.some.inj found
        rw [length_cons, (isToKeyID_eq_some toKeyID).1]
        omega
      split at found
      · rename_i scriptID toScriptID
        obtain rfl := Option.some.inj found
        rw [length_cons, (isToScriptID_eq_some toScriptID).1]
        omega
      split at found
      · cases found
      rename_i pubkey toPubKey
      have short := key pubkey
      dsimp only at found
      split at found
      · obtain rfl := Option.some.inj found
        rw [length_cons]
        omega
      split at found
      · obtain rfl := Option.some.inj found
        rw [length_cons]
        omega
      · cases found
    omega
  · have wrapped : (script.length + nSpecialScripts) % 2 ^ 32 < 2 ^ 32 := Nat.mod_lt _ (by decide)
    have header := size_le (j := 4) (n := (script.length + nSpecialScripts) % 2 ^ 32)
      (wrapped.trans (by decide))
    rw [length_append, length_write]
    omega

end CScriptCompressor

namespace CTxOutCompressor

/-- `CTxOutCompressor::SerializationOp` when an output is written (`compressor.h:107-125`). -/
def serialize (keys : KeyCodec) (txout : CTxOut) : List UInt8 :=
  write (compressAmount (UInt64.ofNat (txout.nValue % 2 ^ 64).toNat)).toNat ++
    CScriptCompressor.serialize keys txout.scriptPubKey

/-- `CTxOutCompressor::SerializationOp` when an output is read into `txout`. -/
def unserialize (keys : KeyCodec) (txout : CTxOut) (bytes : List UInt8) :
    Option (CTxOut × List UInt8) :=
  (readVarInt 64 bytes).bind fun (nVal, bytes) =>
    (CScriptCompressor.unserialize keys txout.scriptPubKey bytes).map fun (script, rest) =>
      (⟨Int.bmod (decompressAmount (UInt64.ofNat nVal)).toNat (2 ^ 64), script⟩, rest)

theorem length_serialize_le (keys : KeyCodec) (txout : CTxOut) :
    (serialize keys txout).length ≤ txout.scriptPubKey.length + 43 := by
  have amount := size_le (j := 9) (n := (compressAmount
    (UInt64.ofNat (txout.nValue % 2 ^ 64).toNat)).toNat) ((UInt64.toNat_lt _).trans (by decide))
  have script := CScriptCompressor.length_serialize_le keys txout.scriptPubKey
  rw [serialize, length_append, length_write]
  omega

end CTxOutCompressor

/-- An output that can be stored: its amount is in the money range, and its script is shorter than
4 GB, so that the size of the script and the special sizes fit in 32 bits. -/
structure CTxOut.Storable (params : CChainParams) (txout : CTxOut) : Prop where
  amount : moneyRange params txout.nValue = true
  script : txout.scriptPubKey.length + CScriptCompressor.nSpecialScripts < 2 ^ 32

/-- An output is read back, whatever stood in its place, with what follows it left. -/
theorem CTxOutCompressor.unserialize_serialize {keys : KeyCodec} (inverts : keys.Inverts)
    {params : CChainParams} (network : NetworkParams params) {txout : CTxOut}
    (storable : txout.Storable params) (old : CTxOut) (rest : List UInt8) :
    unserialize keys old (serialize keys txout ++ rest) = some (txout, rest) := by
  obtain ⟨nValue, script⟩ := txout
  obtain ⟨amount, size⟩ := storable
  obtain ⟨value, rfl⟩ : ∃ value : Nat, nValue = value := by
    simp only [moneyRange, Bool.and_eq_true, decide_eq_true_eq] at amount
    exact ⟨nValue.toNat, (Int.toNat_of_nonneg amount.1).symm⟩
  have most := moneyRange_le network amount
  have toNat : (UInt64.ofNat ((value : Int) % 2 ^ 64).toNat).toNat = value := by
    rw [UInt64.toNat_ofNat']
    omega
  obtain ⟨-, back⟩ := decompress_compress network (n := UInt64.ofNat ((value : Int) % 2 ^ 64).toNat)
    (by rw [toNat]; exact amount)
  rw [toNat] at back
  unfold serialize
  generalize compressAmount (UInt64.ofNat ((value : Int) % 2 ^ 64).toNat) = nVal at back ⊢
  rw [append_assoc, unserialize, readVarInt_write nVal.toNat_lt, Option.bind_some]
  dsimp only
  rw [CScriptCompressor.unserialize_serialize inverts size, Option.map_some]
  have signed : Int.bmod value (2 ^ 64) = value :=
    Int.bmod_eq_of_le (by omega) (by omega)
  rw [UInt64.ofNat_toNat, back, signed]

end Esbcoin
