import Mathlib.Algebra.GroupWithZero.Nat
import Mathlib.Algebra.Ring.Int.Defs
import Mathlib.Logic.Equiv.Defs

/-!
# Codes for numbers with trailing zeros

A number is a mantissa times a power of ten. Its code packs the power, up to a cap, beside the
mantissa, whose last digit is not 0 below the cap and takes one of nine values.
-/

namespace DecimalCode

/-- The number without its trailing zeros, and how many there were; at most `cap` are looked for. -/
def strip : Nat → Nat → Nat × Nat
  | 0, n => (n, 0)
  | cap + 1, n =>
    if n % 10 = 0 then
      let (m, e) := strip cap (n / 10)
      (m, e + 1)
    else (n, 0)

/-- The code of a number. -/
def encode (cap n : Nat) : Nat :=
  if n = 0 then 0
  else
    let (m, e) := strip cap n
    if e < cap then 1 + (m / 10 * 9 + m % 10 - 1) * (cap + 1) + e
    else 1 + (m - 1) * (cap + 1) + cap

/-- The number of a code. -/
def decode (cap x : Nat) : Nat :=
  if x = 0 then 0
  else
    let e := (x - 1) % (cap + 1)
    let q := (x - 1) / (cap + 1)
    (if e < cap then q / 9 * 10 + (q % 9 + 1) else q + 1) * 10 ^ e

/-- A mantissa and an exponent that `strip` gives. -/
structure Stripped (cap m e : Nat) : Prop where
  positive : 0 < m
  capped : e ≤ cap
  last : e < cap → m % 10 ≠ 0

theorem strip_spec (cap : Nat) {n : Nat} (positive : 0 < n) :
    Stripped cap (strip cap n).1 (strip cap n).2 ∧ n = (strip cap n).1 * 10 ^ (strip cap n).2 := by
  induction cap generalizing n with
  | zero => exact ⟨⟨positive, Nat.le_refl 0, fun below => by omega⟩, (Nat.mul_one n).symm⟩
  | succ cap ih =>
    rw [strip]
    split
    · rename_i tens
      obtain ⟨⟨some, capped, last⟩, product⟩ := ih (show 0 < n / 10 by omega)
      refine ⟨⟨some, Nat.succ_le_succ capped, fun below => last (Nat.lt_of_succ_lt_succ below)⟩, ?_⟩
      rw [Nat.pow_succ, ← Nat.mul_assoc, ← product]
      omega
    · rename_i digit
      exact ⟨⟨positive, Nat.zero_le _, fun _ => digit⟩, (Nat.mul_one n).symm⟩

theorem strip_mul_pow {cap m e : Nat} (stripped : Stripped cap m e) :
    strip cap (m * 10 ^ e) = (m, e) := by
  induction cap generalizing e with
  | zero =>
    obtain rfl : e = 0 := Nat.le_zero.mp stripped.capped
    rw [Nat.pow_zero, Nat.mul_one, strip]
  | succ cap ih =>
    cases e with
    | zero =>
      rw [Nat.pow_zero, Nat.mul_one, strip, if_neg (stripped.last (Nat.succ_pos cap))]
    | succ e =>
      have less : Stripped cap m e :=
        ⟨stripped.positive, Nat.le_of_succ_le_succ stripped.capped,
          fun below => stripped.last (Nat.succ_lt_succ below)⟩
      have tens : m * 10 ^ (e + 1) = m * 10 ^ e * 10 := by rw [Nat.pow_succ, Nat.mul_assoc]
      rw [strip, tens, if_pos (Nat.mul_mod_left _ 10), Nat.mul_div_cancel _ (by omega), ih less]

/-- The mantissa behind the code's quotient. -/
theorem encode_of_stripped {cap m e : Nat} (stripped : Stripped cap m e) :
    encode cap (m * 10 ^ e) = if e < cap then 1 + (m / 10 * 9 + m % 10 - 1) * (cap + 1) + e
      else 1 + (m - 1) * (cap + 1) + cap := by
  have some : m * 10 ^ e ≠ 0 := by
    have := Nat.mul_pos stripped.positive (Nat.pow_pos (n := e) (show 0 < 10 by omega))
    omega
  rw [encode, if_neg some, strip_mul_pow stripped]

theorem packed_mod {cap q e : Nat} (capped : e ≤ cap) :
    (1 + q * (cap + 1) + e - 1) % (cap + 1) = e := by
  rw [show 1 + q * (cap + 1) + e - 1 = e + q * (cap + 1) by omega, Nat.add_mul_mod_self_right,
    Nat.mod_eq_of_lt (by omega)]

theorem packed_div {cap q e : Nat} (capped : e ≤ cap) :
    (1 + q * (cap + 1) + e - 1) / (cap + 1) = q := by
  rw [show 1 + q * (cap + 1) + e - 1 = e + q * (cap + 1) by omega,
    Nat.add_mul_div_right _ _ (Nat.succ_pos cap), Nat.div_eq_of_lt (by omega), Nat.zero_add]

theorem decode_packed {cap q e : Nat} (capped : e ≤ cap) :
    decode cap (1 + q * (cap + 1) + e) =
      (if e < cap then q / 9 * 10 + (q % 9 + 1) else q + 1) * 10 ^ e := by
  rw [decode, if_neg (by omega), packed_mod capped, packed_div capped]

/-- A code gives back its number. -/
theorem decode_encode (cap n : Nat) : decode cap (encode cap n) = n := by
  by_cases zero : n = 0
  · subst zero
    rfl
  obtain ⟨stripped, product⟩ := strip_spec cap (Nat.pos_of_ne_zero zero)
  generalize (strip cap n).1 = m at stripped product
  generalize (strip cap n).2 = e at stripped product
  subst product
  have positive := stripped.positive
  rw [encode_of_stripped stripped]
  by_cases below : e < cap
  · have digit := stripped.last below
    rw [if_pos below, decode_packed stripped.capped, if_pos below]
    congr 1
    omega
  obtain rfl : e = cap := Nat.le_antisymm stripped.capped (Nat.le_of_not_lt below)
  rw [if_neg below, decode_packed (Nat.le_refl e), if_neg below]
  congr 1
  omega

/-- The number of a code has that code. -/
theorem encode_decode (cap x : Nat) : encode cap (decode cap x) = x := by
  by_cases zero : x = 0
  · subst zero
    rfl
  have split := Nat.div_add_mod (x - 1) (cap + 1)
  have capped : (x - 1) % (cap + 1) ≤ cap := Nat.le_of_lt_succ (Nat.mod_lt _ (Nat.succ_pos cap))
  rw [decode, if_neg zero]
  dsimp only
  generalize (x - 1) / (cap + 1) = q at split
  generalize (x - 1) % (cap + 1) = e at split capped
  rw [Nat.mul_comm] at split
  by_cases below : e < cap
  · rw [if_pos below, encode_of_stripped ⟨by omega, capped, fun _ => by omega⟩, if_pos below,
      show (q / 9 * 10 + (q % 9 + 1)) / 10 * 9 + (q / 9 * 10 + (q % 9 + 1)) % 10 - 1 = q by omega]
    omega
  · rw [if_neg below, encode_of_stripped ⟨by omega, capped, fun less => absurd less below⟩,
      if_neg below, Nat.add_sub_cancel]
    omega

/-- A code is at most `cap + 1` times its number. -/
theorem encode_le (cap n : Nat) : encode cap n ≤ (cap + 1) * n := by
  by_cases zero : n = 0
  · subst zero
    exact Nat.le_refl 0
  obtain ⟨stripped, product⟩ := strip_spec cap (Nat.pos_of_ne_zero zero)
  generalize (strip cap n).1 = m at stripped product
  generalize (strip cap n).2 = e at stripped product
  have positive := stripped.positive
  have power : m ≤ m * 10 ^ e := Nat.le_mul_of_pos_right m (Nat.pow_pos (by omega))
  rw [product, encode_of_stripped stripped]
  have whole : (m - 1) * (cap + 1) + (cap + 1) = (cap + 1) * m := by
    rw [← Nat.succ_mul, Nat.succ_eq_add_one, Nat.sub_add_cancel positive, Nat.mul_comm]
  calc (if e < cap then 1 + (m / 10 * 9 + m % 10 - 1) * (cap + 1) + e
      else 1 + (m - 1) * (cap + 1) + cap)
      ≤ 1 + (m - 1) * (cap + 1) + cap := by
        have mantissa : (m / 10 * 9 + m % 10 - 1) * (cap + 1) ≤ (m - 1) * (cap + 1) :=
          Nat.mul_le_mul_right _ (by omega)
        split <;> omega
    _ = (cap + 1) * m := by omega
    _ ≤ (cap + 1) * (m * 10 ^ e) := Nat.mul_le_mul_left _ power

end DecimalCode
