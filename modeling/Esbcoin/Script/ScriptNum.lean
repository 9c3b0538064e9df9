import Esbcoin.Script.Opcodes

/-!
# Numbers of scripts

`CScriptNum::serialize` and `set_vch` (`src/script/script.h:289-340`) undo each other.
-/

namespace Esbcoin

open Bytes CScriptNum CScript List

/-! ## The bytes of a magnitude -/

variable {back : UInt8} {front vch : List UInt8} {n : Int}

theorem ofLittleEndian_pos (front : List UInt8) (back : UInt8) (high : back.toNat ≠ 0) :
    0 < ofLittleEndian (front ++ [back]) := by
  have place := Nat.mul_pos (Nat.pos_of_ne_zero high)
    (Nat.pow_pos (n := front.length) (show 0 < 256 by decide))
  rw [ofLittleEndian_concat]
  omega

/-- Bytes whose last one is not zero are those of their value. -/
theorem magnitude_ofLittleEndian {fuel : Nat} (high : back.toNat ≠ 0) (short : front.length < fuel)
    : magnitude fuel (ofLittleEndian (front ++ [back])) = front ++ [back] := by
  induction front generalizing fuel with
  | nil =>
    obtain ⟨fuel, rfl⟩ : ∃ more, fuel = more + 1 := ⟨fuel - 1, by omega⟩
    have byte := back.toNat_lt
    have value : ofLittleEndian ([] ++ [back]) = back.toNat := by simp [ofLittleEndian]
    rw [value, magnitude, if_neg high, Nat.div_eq_of_lt byte, UInt8.ofNat_toNat]
    cases fuel <;> rfl
  | cons byte front ih =>
    rw [length_cons] at short
    obtain ⟨fuel, rfl⟩ : ∃ more, fuel = more + 1 := ⟨fuel - 1, by omega⟩
    have small := byte.toNat_lt
    have positive := ofLittleEndian_pos front back high
    rw [cons_append, ofLittleEndian, magnitude, if_neg (by omega),
      Nat.add_mul_div_left _ _ (by decide), Nat.div_eq_of_lt small, Nat.zero_add, ih (by omega)]
    congr 1
    apply UInt8.toNat_inj.mp
    rw [UInt8.toNat_ofNat']
    omega

theorem magnitude_ends {fuel absvalue : Nat} (positive : absvalue ≠ 0)
    (small : absvalue < 256 ^ fuel) :
    ∃ front back, magnitude fuel absvalue = front ++ [back] ∧ back.toNat ≠ 0 := by
  induction fuel generalizing absvalue with
  | zero =>
    omega
  | succ fuel ih =>
    rw [magnitude, if_neg positive]
    by_cases last : absvalue / 256 = 0
    · refine ⟨[], UInt8.ofNat absvalue, ?_, ?_⟩
      · rw [last]
        cases fuel <;> rfl
      · rw [UInt8.toNat_ofNat']
        omega
    · obtain ⟨front, back, bytes, high⟩ := ih last (Nat.div_lt_of_lt_mul (by omega))
      exact ⟨_ :: front, back, by rw [bytes]; rfl, high⟩

/-! ## Sign and magnitude -/

theorem sign_bits (byte : UInt8) :
    (byte ||| 0x80).toNat = byte.toNat % 128 + 128 ∧ (byte &&& 0x7f = 0 ↔ byte.toNat % 128 = 0) ∧
      (byte &&& 0x80 = 0 ↔ byte.toNat < 128) := by
  have bits : ∀ n < 256, n ||| 128 = n % 128 + 128 ∧ (n &&& 127 = 0 ↔ n % 128 = 0) ∧
      (n &&& 128 = 0 ↔ n < 128) := by
    decide +kernel
  rw [← UInt8.toNat_inj, ← UInt8.toNat_inj, UInt8.toNat_or, UInt8.toNat_and, UInt8.toNat_and]
  exact bits _ byte.toNat_lt

theorem CScript.scriptNum_concat (front : List UInt8) (last : UInt8) :
    scriptNum (front ++ [last]) =
      if 128 ≤ last.toNat then
        -((ofLittleEndian front + last.toNat % 128 * 256 ^ front.length : Nat) : Int)
      else ((ofLittleEndian front + last.toNat % 128 * 256 ^ front.length : Nat) : Int) := by
  have value : ∀ vch : List UInt8,
      vch.foldr (fun byte more => byte.toNat + 256 * more) 0 = ofLittleEndian vch := by
    intro vch
    induction vch with
    | nil => rfl
    | cons byte vch ih => rw [foldr_cons, ih, ofLittleEndian]
  have length : (front ++ [last]).length - 1 = front.length := by simp
  have byte := last.toNat_lt
  unfold scriptNum
  simp only [List.getLast?_concat, value, length, ge_iff_le, UInt8.le_iff_toNat_le,
    ofLittleEndian_concat, UInt8.reduceToNat]
  split
  · rename_i sign
    rw [Nat.add_sub_assoc (Nat.mul_le_mul_right _ sign), ← Nat.sub_mul,
      show last.toNat - 128 = last.toNat % 128 by omega]
  · rw [Nat.mod_eq_of_lt (by omega)]

/-- The bytes written for a number whose magnitude is known. -/
theorem serialize_of_magnitude (bytes : magnitude 8 n.natAbs = front ++ [back]) :
    serialize n = if 128 ≤ back.toNat then front ++ [back] ++ [if n < 0 then 0x80 else 0]
      else if n < 0 then front ++ [back ||| 0x80] else front ++ [back] := by
  have nonzero : n ≠ 0 := by
    rintro rfl
    have length := congrArg List.length bytes
    simp [magnitude] at length
  simp only [serialize, if_neg nonzero, bytes, List.getLast?_concat,
    dropLast_concat, UInt8.le_iff_toNat_le, UInt8.reduceToNat]

/-- What is written for a number above the least one has at most eight bytes and is read back. -/
theorem scriptNum_serialize (low : -2 ^ 63 < n) (high : n < 2 ^ 63) :
    (serialize n).length ≤ 8 ∧ scriptNum (serialize n) = n := by
  by_cases zero : n = 0
  · subst zero
    decide
  obtain ⟨front, back, bytes, -⟩ := @magnitude_ends 8 n.natAbs (by omega) (by omega)
  have value := @ofLittleEndian_magnitude 8 n.natAbs (by omega)
  have short := magnitude_length 8 n.natAbs
  rw [bytes, ofLittleEndian_concat] at value
  rw [bytes, length_append, length_singleton] at short
  rw [serialize_of_magnitude bytes]
  split
  · rename_i full
    -- eight bytes leave no room for another: the number is below 2 ^ 63
    have room : front.length < 7 := by
      by_contra long
      rw [show front.length = 7 by omega] at value
      omega
    refine ⟨by simp only [length_append, length_singleton]; omega, ?_⟩
    rw [scriptNum_concat, ofLittleEndian_concat, value]
    have signs : (0x80 : UInt8).toNat % 128 = 0 ∧ (0 : UInt8).toNat % 128 = 0 := ⟨rfl, rfl⟩
    by_cases negative : n < 0
    · rw [if_pos negative, if_pos (by decide), signs.1, Nat.zero_mul]
      omega
    · rw [if_neg negative, if_neg (by decide), signs.2, Nat.zero_mul]
      omega
  · rename_i full
    rw [← Nat.mod_eq_of_lt (Nat.not_le.mp full)] at value
    by_cases negative : n < 0
    · rw [if_pos negative, scriptNum_concat, (sign_bits back).1, if_pos (by omega),
        Nat.add_mod_right, Nat.mod_mod, value, length_append, length_singleton]
      exact ⟨short, by omega⟩
    · rw [if_neg negative, scriptNum_concat, if_neg full, value, length_append,
        length_singleton]
      exact ⟨short, by omega⟩

/-- The numbers of at most four bytes. -/
theorem CScript.scriptNum_bounds (short : vch.length ≤ 4) :
    -2 ^ 31 < scriptNum vch ∧ scriptNum vch < 2 ^ 31 := by
  rcases eq_nil_or_concat' vch with rfl | ⟨front, last, rfl⟩
  · decide
  have low := Bytes.ofLittleEndian_lt front
  have few : front.length ≤ 3 := by
    rw [length_append, length_singleton] at short
    omega
  have power : 256 ^ front.length ≤ 256 ^ 3 := Nat.pow_le_pow_right (by decide) few
  -- the sign bit of the last byte is taken out, so seven of its bits are left
  have top := Nat.mul_le_mul_right (256 ^ front.length) (show last.toNat % 128 ≤ 127 by omega)
  rw [scriptNum_concat]
  split <;> omega

/-! ## The shortest bytes -/

/-- What the check of `CScriptNum` lets pass: the last byte holds more than a sign, or the byte in
front of it has no room for one. -/
def CScriptNum.Minimal (vch : List UInt8) : Prop :=
  ∀ front last, vch = front ++ [last] → last.toNat % 128 = 0 →
    ∃ more second, front = more ++ [second] ∧ 128 ≤ second.toNat

theorem minimal_concat {last : UInt8} :
    CScriptNum.Minimal (front ++ [last]) ↔
      (last.toNat % 128 = 0 → ∃ more second, front = more ++ [second] ∧ 128 ≤ second.toNat) := by
  constructor
  · exact fun minimal => minimal front last rfl
  rintro minimal front' last' same
  obtain ⟨rfl, ends⟩ := append_inj' same rfl
  obtain ⟨rfl, -⟩ := List.cons.inj ends
  exact minimal

theorem ofBytes_iff_minimal (short : vch.length ≤ 4) :
    ofBytes vch true = .ok (scriptNum vch) ↔ CScriptNum.Minimal vch := by
  rw [ofBytes, if_neg (by omega)]
  rcases eq_nil_or_concat' vch with rfl | ⟨front, last, rfl⟩
  · simp [CScriptNum.Minimal]
  rw [minimal_concat]
  have bits := (sign_bits last).2.1
  rcases eq_nil_or_concat' front with rfl | ⟨more, second, rfl⟩
  · simp [bits]
  have room := (sign_bits second).2.2
  have ends : (∃ front' second', more ++ [second] = front' ++ [second'] ∧ 128 ≤ second'.toNat) ↔
      128 ≤ second.toNat := by
    constructor
    · rintro ⟨front', second', same, full⟩
      rwa [(List.cons.inj (append_inj' same rfl).2).1]
    · exact fun full => ⟨more, second, rfl, full⟩
  simp [bits, room]

theorem serialize_minimal (low : -2 ^ 63 < n) (high : n < 2 ^ 63) :
    CScriptNum.Minimal (serialize n) := by
  by_cases zero : n = 0
  · subst zero
    simp [serialize, CScriptNum.Minimal]
  obtain ⟨front, back, bytes, some_bit⟩ := @magnitude_ends 8 n.natAbs (by omega) (by omega)
  rw [serialize_of_magnitude bytes]
  split
  · rename_i full
    exact minimal_concat.mpr fun _ => ⟨front, back, rfl, full⟩
  split
  · rw [minimal_concat, (sign_bits back).1]
    omega
  · rw [minimal_concat]
    omega

theorem serialize_of_value (front : List UInt8) (back : UInt8) (high : back.toNat ≠ 0)
    (short : front.length < 8) (value : n.natAbs = ofLittleEndian (front ++ [back])) :
    serialize n = if 128 ≤ back.toNat then front ++ [back] ++ [if n < 0 then 0x80 else 0]
      else if n < 0 then front ++ [back ||| 0x80] else front ++ [back] :=
  serialize_of_magnitude (by rw [value, magnitude_ofLittleEndian high short])

/-- Bytes that pass the check are written for their number. -/
theorem serialize_scriptNum (short : vch.length ≤ 8) (minimal : CScriptNum.Minimal vch) :
    serialize (scriptNum vch) = vch := by
  rcases eq_nil_or_concat' vch with rfl | ⟨front, last, rfl⟩
  · rfl
  rw [length_append, length_singleton] at short
  rw [minimal_concat] at minimal
  have byte := last.toNat_lt
  have number := scriptNum_concat front last
  by_cases sign : last.toNat % 128 = 0
  · -- the last byte is a sign alone, and the one in front of it is full
    obtain ⟨more, second, rfl, full⟩ := minimal sign
    rw [sign, Nat.zero_mul, Nat.add_zero] at number
    rw [length_append, length_singleton] at short
    have positive := ofLittleEndian_pos more second (by omega)
    rw [serialize_of_value more second (by omega) (by omega) (by rw [number]; split <;> omega),
      if_pos full, number]
    congr 2
    apply UInt8.toNat_inj.mp
    by_cases negative : 128 ≤ last.toNat
    · rw [if_pos negative, if_pos (by omega)]
      change 128 = _
      omega
    · rw [if_neg negative, if_neg (by omega)]
      change 0 = _
      omega
  · by_cases negative : 128 ≤ last.toNat
    · -- without its sign the last byte is the highest of the magnitude
      have cleared : (UInt8.ofNat (last.toNat % 128)).toNat = last.toNat % 128 := by
        rw [UInt8.toNat_ofNat']
        omega
      rw [if_pos negative, ← cleared, ← ofLittleEndian_concat] at number
      have positive := ofLittleEndian_pos front (UInt8.ofNat (last.toNat % 128)) (by omega)
      rw [serialize_of_value front (UInt8.ofNat (last.toNat % 128)) (by omega) (by omega)
        (by rw [number, Int.natAbs_neg, Int.natAbs_natCast]), if_neg (by omega), if_pos (by omega)]
      congr 2
      apply UInt8.toNat_inj.mp
      rw [(sign_bits _).1, cleared]
      omega
    · rw [if_neg negative, Nat.mod_eq_of_lt (by omega), ← ofLittleEndian_concat] at number
      rw [serialize_of_value front last (by omega) (by omega) (by rw [number, Int.natAbs_natCast]),
        if_neg negative, if_neg (by omega)]

/-- Every number above the least one is read back from its bytes, without a shift past the highest
bit; and the check on at most four bytes passes exactly if they are written for their number. -/
theorem CScriptNum.round_trip {n : Int} {vch : List UInt8} (low : -2 ^ 63 < n) (high : n < 2 ^ 63)
    (short : vch.length ≤ 4) :
    (serialize n).length ≤ 8 ∧ scriptNum (serialize n) = n ∧
      (ofBytes vch true = .ok (scriptNum vch) ↔
        serialize (scriptNum vch) = vch) := by
  obtain ⟨size, back⟩ := scriptNum_serialize low high
  refine ⟨size, back, (ofBytes_iff_minimal short).trans ⟨serialize_scriptNum (by omega), ?_⟩⟩
  intro same
  have bounds := scriptNum_bounds short
  rw [← same]
  exact serialize_minimal (by omega) (by omega)

theorem CScriptNum.round_trip_negative : serialize (-255) = [0xff, 0x80] ∧
    scriptNum (serialize (-255)) = -255 ∧
    (ofBytes [0x80] true = .ok (scriptNum [0x80]) ↔
      serialize (scriptNum [0x80]) = [0x80]) :=
  ⟨by decide, (@round_trip (-255) [0x80] (by decide) (by decide) (by decide)).2⟩

end Esbcoin
