import Esbcoin.Lib.Bytes
import Esbcoin.Script

/-!
# Pushes of numbers and data

`CScriptNum::serialize` and the operators `<<` of `CScript` (`src/script/script.h`). Numbers that
are not negative are pushed in a form that can be told from what follows (`splits_pushInt64`): the
first byte says which form it is and how long.
-/

namespace Esbcoin

open Bytes

/-- `while (absvalue)` (`script/script.h:298-302`): at most eight bytes. -/
def CScriptNum.magnitude : Nat → Nat → List UInt8
  | 0, _ => []
  | fuel + 1, absvalue =>
    if absvalue = 0 then [] else UInt8.ofNat absvalue :: magnitude fuel (absvalue / 256)

/-- `CScriptNum::serialize` (`script/script.h:289-320`). -/
def CScriptNum.serialize (value : Int) : List UInt8 :=
  if value = 0 then []
  else
    let result := magnitude 8 value.natAbs
    match result.getLast? with
    | none => result
    | some back =>
      if 0x80 ≤ back then result ++ [if value < 0 then 0x80 else 0]
      else if value < 0 then result.dropLast ++ [back ||| 0x80]
      else result

namespace CScript

/-- `operator<<` of bytes (`script/script.h:407-432`), the bytes it puts in. -/
def pushData (b : List UInt8) : CScript :=
  if b.length < OP_PUSHDATA1.toNat then UInt8.ofNat b.length :: b
  else if b.length ≤ 0xff then OP_PUSHDATA1 :: UInt8.ofNat b.length :: b
  else if b.length ≤ 0xffff then OP_PUSHDATA2 :: (littleEndian 2 b.length ++ b)
  else OP_PUSHDATA4 :: (littleEndian 4 b.length ++ b)

/-- `CScript::push_int64` (`script/script.h:349-364`), the bytes it puts in. -/
def pushInt64 (n : Int) : CScript :=
  if n = -1 ∨ (1 ≤ n ∧ n ≤ 16) then [UInt8.ofNat (n + 0x50).toNat]
  else if n = 0 then [0]
  else pushData (CScriptNum.serialize n)

end CScript

/-! ## Numbers that are not negative -/

theorem magnitude_length (fuel absvalue : Nat) :
    (CScriptNum.magnitude fuel absvalue).length ≤ fuel := by
  induction fuel generalizing absvalue with
  | zero => exact Nat.le_refl 0
  | succ fuel ih =>
    rw [CScriptNum.magnitude]
    split
    · exact Nat.zero_le _
    · exact Nat.succ_le_succ (ih _)

theorem ofLittleEndian_magnitude {fuel absvalue : Nat} (small : absvalue < 256 ^ fuel) :
    ofLittleEndian (CScriptNum.magnitude fuel absvalue) = absvalue := by
  induction fuel generalizing absvalue with
  | zero =>
    rw [Nat.pow_zero] at small
    rw [CScriptNum.magnitude, ofLittleEndian]
    omega
  | succ fuel ih =>
    rw [Nat.pow_succ] at small
    rw [CScriptNum.magnitude]
    by_cases zero : absvalue = 0
    · rw [if_pos zero, zero]
      rfl
    · rw [if_neg zero, ofLittleEndian, ih (Nat.div_lt_of_lt_mul (by omega)), UInt8.toNat_ofNat']
      omega

/-- The bytes of a number above 0 have its value, and there are one to nine. -/
theorem serialize_of_pos {n : Int} (positive : 0 < n) (small : n < 2 ^ 63) :
    ofLittleEndian (CScriptNum.serialize n) = n.toNat ∧
      1 ≤ (CScriptNum.serialize n).length ∧ (CScriptNum.serialize n).length ≤ 9 := by
  have value : ofLittleEndian (CScriptNum.magnitude 8 n.natAbs) = n.toNat := by
    rw [ofLittleEndian_magnitude (by omega)]
    omega
  have short := magnitude_length 8 n.natAbs
  have some_byte : 1 ≤ (CScriptNum.magnitude 8 n.natAbs).length := by
    rw [Nat.one_le_iff_ne_zero, ne_eq, List.length_eq_zero_iff]
    intro none
    rw [none, ofLittleEndian] at value
    omega
  unfold CScriptNum.serialize
  rw [if_neg (by omega)]
  dsimp only
  split
  · exact ⟨value, some_byte, by omega⟩
  rw [if_neg (show ¬ n < 0 by omega), if_neg (show ¬ n < 0 by omega)]
  split
  · rw [ofLittleEndian_concat, List.length_append, List.length_singleton]
    exact ⟨by simpa using value, by omega, by omega⟩
  · exact ⟨value, some_byte, by omega⟩

/-- The form of a number that is pushed, by its first byte. -/
theorem pushInt64_form {n : Int} (nonneg : 0 ≤ n) (small : n < 2 ^ 63) :
    (∃ byte, CScript.pushInt64 n = [byte] ∧ byte.toNat = (n + 0x50).toNat ∧ 1 ≤ n ∧ n ≤ 16) ∨
    (CScript.pushInt64 n = [0] ∧ n = 0) ∨
    ∃ byte bytes, CScript.pushInt64 n = byte :: bytes ∧ byte.toNat = bytes.length ∧
      1 ≤ bytes.length ∧ bytes.length ≤ 9 ∧ ofLittleEndian bytes = n.toNat := by
  unfold CScript.pushInt64
  by_cases tiny : 1 ≤ n ∧ n ≤ 16
  · rw [if_pos (Or.inr tiny)]
    refine Or.inl ⟨_, rfl, ?_, tiny⟩
    rw [UInt8.toNat_ofNat']
    omega
  rw [if_neg (by omega)]
  by_cases zero : n = 0
  · rw [if_pos zero]
    exact Or.inr (Or.inl ⟨rfl, zero⟩)
  obtain ⟨value, some_byte, short⟩ := serialize_of_pos (n := n) (by omega) small
  have pushdata : CScript.OP_PUSHDATA1.toNat = 76 := rfl
  rw [if_neg zero, CScript.pushData, if_pos (by omega)]
  refine Or.inr (Or.inr ⟨_, _, rfl, ?_, some_byte, short, value⟩)
  rw [UInt8.toNat_ofNat']
  omega

theorem splits_pushInt64 : Splits (fun n : Int => 0 ≤ n ∧ n < 2 ^ 63) CScript.pushInt64 := by
  rintro n m ⟨nonneg, small⟩ ⟨nonneg', small'⟩ rest rest' same
  have none : (0 : UInt8).toNat = 0 := rfl
  rcases pushInt64_form nonneg small with
    ⟨byte, form, value, low, high⟩ | ⟨form, rfl⟩ | ⟨byte, bytes, form, size, low, high, value⟩
  · rcases pushInt64_form nonneg' small' with
      ⟨byte', form', value', -⟩ | ⟨form', rfl⟩ | ⟨byte', bytes', form', size', low', high', -⟩
    · rw [form, form'] at same
      obtain ⟨rfl, rfl⟩ := List.cons.inj same
      exact ⟨by omega, rfl⟩
    · rw [form, form'] at same
      rw [(List.cons.inj same).1] at value
      omega
    · rw [form, form'] at same
      rw [(List.cons.inj same).1] at value
      omega
  · rcases pushInt64_form nonneg' small' with
      ⟨byte', form', value', low', -⟩ | ⟨form', rfl⟩ | ⟨byte', bytes', form', size', low', -⟩
    · rw [form, form'] at same
      rw [← (List.cons.inj same).1] at value'
      omega
    · rw [form] at same
      exact ⟨rfl, (List.cons.inj same).2⟩
    · rw [form, form'] at same
      rw [← (List.cons.inj same).1] at size'
      omega
  · rcases pushInt64_form nonneg' small' with
      ⟨byte', form', value', low', -⟩ | ⟨form', rfl⟩ | ⟨byte', bytes', form', size', -, -, value'⟩
    · rw [form, form'] at same
      rw [← (List.cons.inj same).1] at value'
      omega
    · rw [form, form'] at same
      rw [(List.cons.inj same).1] at size
      omega
    · rw [form, form', List.cons_append, List.cons_append] at same
      obtain ⟨rfl, behind⟩ := List.cons.inj same
      obtain ⟨rfl, rfl⟩ := List.append_inj behind (size.symm.trans size')
      exact ⟨by omega, rfl⟩

end Esbcoin
