import Mathlib.Algebra.Order.Field.Power
import Mathlib.Data.Rat.Floor
import Mathlib.Tactic.FieldSimp
import Mathlib.Tactic.Linarith

/-!
# Doubles

Arithmetic in IEEE binary64 with rounding to nearest, ties to even, on the rationals that are
doubles. Exponents are not bounded: nothing here says what overflows or is subnormal.
-/

namespace Binary64

/-- A power of two. -/
def pow2 (e : ℤ) : ℚ := if 0 ≤ e then (2 ^ e.toNat : ℕ) else 1 / (2 ^ (-e).toNat : ℕ)

/-- The exponent of the greatest power of two that is not above the absolute value of `q`. -/
def exponent (q : ℚ) : ℤ :=
  let e : ℤ := (q.num.natAbs.log2 : ℤ) - q.den.log2
  if pow2 e ≤ |q| then e else e - 1

/-- The nearest integer, of two the even one. -/
def roundEven (q : ℚ) : ℤ :=
  let rest := q - q.floor
  if rest < 1 / 2 ∨ (rest = 1 / 2 ∧ q.floor % 2 = 0) then q.floor else q.floor + 1

/-- The nearest double. -/
def nearest (q : ℚ) : ℚ :=
  if q = 0 then 0
  else
    let ulp := pow2 (exponent q - 52)
    roundEven (q / ulp) * ulp

/-- A sum of doubles. -/
def add (a b : ℚ) : ℚ := nearest (a + b)

/-- A product of doubles. -/
def mul (a b : ℚ) : ℚ := nearest (a * b)

/-- The conversion to an integer type, towards zero. -/
def trunc (q : ℚ) : ℤ := if 0 ≤ q then q.floor else q.ceil

/-- The literal `2.6` is not `26 / 10`. -/
example : nearest (26 / 10) = 5854679515581645 / 2 ^ 51 := by decide +kernel

example : mul (nearest (26 / 10)) 3 = 8782019273372468 / 2 ^ 50 := by decide +kernel

/-! ## Rounding -/

theorem pow2_eq_zpow (e : ℤ) : pow2 e = (2 : ℚ) ^ e := by
  unfold pow2
  by_cases sign : 0 ≤ e
  · obtain ⟨n, rfl⟩ := Int.eq_ofNat_of_zero_le sign
    simp
  · obtain ⟨n, hn⟩ := Int.eq_ofNat_of_zero_le (show 0 ≤ -e by omega)
    rw [if_neg sign, hn, show e = -(n : ℤ) by omega]
    simp

theorem pow2_pos (e : ℤ) : 0 < pow2 e := by
  rw [pow2_eq_zpow]
  positivity

theorem pow2_succ (e : ℤ) : pow2 (e + 1) = 2 * pow2 e := by
  rw [pow2_eq_zpow, pow2_eq_zpow, zpow_add_one₀ (by norm_num)]
  ring

theorem pow2_le {e e' : ℤ} (le : e ≤ e') : pow2 e ≤ pow2 e' := by
  rw [pow2_eq_zpow, pow2_eq_zpow]
  exact zpow_le_zpow_right₀ (by norm_num) le

variable {q b : ℚ}

theorem exponent_spec (positive : 0 < q) : pow2 (exponent q) ≤ q ∧ q < pow2 (exponent q + 1) := by
  have value : q * q.den = q.num.natAbs := by
    have numPos := Rat.num_pos.mpr positive
    have := Rat.mul_den_eq_num q
    rw [this, ← Int.natAbs_of_nonneg numPos.le]
    simp
  have nonzero : q.num.natAbs ≠ 0 := by
    have := Rat.num_pos.mpr positive
    omega
  have numLow : (2 : ℚ) ^ q.num.natAbs.log2 ≤ q.num.natAbs := by
    exact_mod_cast Nat.log2_self_le nonzero
  have numHigh : (q.num.natAbs : ℚ) < 2 * 2 ^ q.num.natAbs.log2 := by
    have : q.num.natAbs < 2 ^ (q.num.natAbs.log2 + 1) := Nat.lt_log2_self
    rw [pow_succ'] at this
    exact_mod_cast this
  have denLow : (2 : ℚ) ^ q.den.log2 ≤ q.den := by
    exact_mod_cast Nat.log2_self_le q.den_nz
  have denHigh : (q.den : ℚ) < 2 * 2 ^ q.den.log2 := by
    have : q.den < 2 ^ (q.den.log2 + 1) := Nat.lt_log2_self
    rw [pow_succ'] at this
    exact_mod_cast this
  have denPos : (0 : ℚ) < q.den := by exact_mod_cast q.den_pos
  simp only [exponent, abs_of_pos positive]
  generalize q.num.natAbs.log2 = a at *
  generalize q.den.log2 = b at *
  have ratio : pow2 ((a : ℤ) - b) * 2 ^ b = 2 ^ a := by
    rw [pow2_eq_zpow, ← zpow_natCast, ← zpow_natCast, ← zpow_add₀ (by norm_num), sub_add_cancel]
  have upper : q < 2 * pow2 ((a : ℤ) - b) := by
    refine lt_of_mul_lt_mul_right ?_ denPos.le
    nlinarith
  have lower : pow2 ((a : ℤ) - b) < 2 * q := by
    refine lt_of_mul_lt_mul_right ?_ denPos.le
    nlinarith
  by_cases reached : pow2 ((a : ℤ) - b) ≤ q
  · rw [if_pos reached, pow2_succ]
    exact ⟨reached, upper⟩
  have half : pow2 ((a : ℤ) - b) = 2 * pow2 ((a : ℤ) - b - 1) := by
    rw [← pow2_succ, sub_add_cancel]
  rw [if_neg reached, sub_add_cancel]
  constructor
  · linarith
  · linarith

theorem floor_bounds (q : ℚ) : (q.floor : ℚ) ≤ q ∧ q < q.floor + 1 :=
  ⟨Int.floor_le q, Int.lt_floor_add_one q⟩

theorem roundEven_le (q : ℚ) : (roundEven q : ℚ) ≤ q + 1 / 2 := by
  obtain ⟨low, high⟩ := floor_bounds q
  simp only [roundEven]
  split
  · linarith
  rename_i far
  push Not at far
  push_cast
  linarith [far.1]

theorem roundEven_mono {a : ℚ} (le : a ≤ b) : roundEven a ≤ roundEven b := by
  have floors : a.floor ≤ b.floor := Int.floor_le_floor le
  rcases Int.lt_or_eq_of_le floors with less | equal
  · have above : roundEven a ≤ a.floor + 1 := by
      simp only [roundEven]
      split <;> omega
    have below : b.floor ≤ roundEven b := by
      simp only [roundEven]
      split <;> omega
    omega
  simp only [roundEven]
  rw [← equal]
  by_cases near : b - a.floor < 1 / 2 ∨ (b - a.floor = 1 / 2 ∧ a.floor % 2 = 0)
  · have near' : a - a.floor < 1 / 2 ∨ (a - a.floor = 1 / 2 ∧ a.floor % 2 = 0) := by
      rcases near with less | ⟨half, even⟩
      · exact Or.inl (by linarith)
      · rcases lt_or_eq_of_le le with less | same
        · exact Or.inl (by linarith)
        · exact Or.inr ⟨by linarith, even⟩
    rw [if_pos near, if_pos near']
  · rw [if_neg near]
    split <;> omega

@[simp] theorem roundEven_intCast (n : ℤ) : roundEven n = n := by
  have floor : (n : ℚ).floor = n := Rat.floor_intCast n
  simp only [roundEven, floor, sub_self]
  norm_num

theorem nearest_of_pos (positive : 0 < q) :
    nearest q = roundEven (q / pow2 (exponent q - 52)) * pow2 (exponent q - 52) := by
  unfold nearest
  rw [if_neg positive.ne']

@[simp] theorem nearest_zero : nearest 0 = 0 := rfl

/-- A double lies between the powers of two around the number. -/
theorem nearest_bounds (positive : 0 < q) :
    pow2 (exponent q) ≤ nearest q ∧ nearest q ≤ pow2 (exponent q + 1) := by
  have ulpPos := pow2_pos (exponent q - 52)
  obtain ⟨low, high⟩ := exponent_spec positive
  have scale : ∀ k : ℕ, pow2 (exponent q - 52 + k) = 2 ^ k * pow2 (exponent q - 52) := by
    intro k
    rw [pow2_eq_zpow, pow2_eq_zpow, zpow_add₀ (by norm_num), zpow_natCast, mul_comm]
  have bottom : pow2 (exponent q) = 2 ^ 52 * pow2 (exponent q - 52) := by
    rw [← scale 52]
    congr 1
    omega
  have top : pow2 (exponent q + 1) = 2 ^ 53 * pow2 (exponent q - 52) := by
    rw [← scale 53]
    congr 1
    omega
  rw [nearest_of_pos positive]
  constructor
  · have atLeast : ((2 ^ 52 : ℤ) : ℚ) ≤ q / pow2 (exponent q - 52) := by
      rw [le_div_iff₀ ulpPos]
      push_cast
      linarith
    have rounded := roundEven_mono atLeast
    rw [roundEven_intCast] at rounded
    rw [bottom]
    exact mul_le_mul_of_nonneg_right (by exact_mod_cast rounded) ulpPos.le
  have atMost : q / pow2 (exponent q - 52) ≤ ((2 ^ 53 : ℤ) : ℚ) := by
    rw [div_le_iff₀ ulpPos]
    push_cast
    linarith
  have rounded := roundEven_mono atMost
  rw [roundEven_intCast] at rounded
  rw [top]
  exact mul_le_mul_of_nonneg_right (by exact_mod_cast rounded) ulpPos.le

theorem nearest_nonneg (nonneg : 0 ≤ q) : 0 ≤ nearest q := by
  rcases nonneg.eq_or_lt with rfl | positive
  · exact le_of_eq nearest_zero.symm
  · exact (pow2_pos _).le.trans (nearest_bounds positive).1

theorem exponent_mono {a : ℚ} (positive : 0 < a) (le : a ≤ b) : exponent a ≤ exponent b := by
  by_contra less
  have low := (exponent_spec positive).1
  have high := (exponent_spec (positive.trans_le le)).2
  have := pow2_le (show exponent b + 1 ≤ exponent a by omega)
  linarith

theorem nearest_mono {a : ℚ} (nonneg : 0 ≤ a) (le : a ≤ b) : nearest a ≤ nearest b := by
  rcases nonneg.eq_or_lt with rfl | positive
  · rw [nearest_zero]
    exact nearest_nonneg le
  have positive' := positive.trans_le le
  rcases Int.lt_or_eq_of_le (exponent_mono positive le) with less | equal
  · exact (nearest_bounds positive).2.trans
      ((pow2_le (by omega)).trans (nearest_bounds positive').1)
  have ulpPos := pow2_pos (exponent b - 52)
  rw [nearest_of_pos positive, nearest_of_pos positive', equal]
  refine mul_le_mul_of_nonneg_right ?_ ulpPos.le
  exact_mod_cast roundEven_mono (div_le_div_of_nonneg_right le ulpPos.le)

/-- The relative error of rounding. -/
theorem nearest_le (nonneg : 0 ≤ q) : nearest q ≤ q * (1 + 1 / 2 ^ 53) := by
  rcases nonneg.eq_or_lt with rfl | positive
  · simp
  have ulpPos := pow2_pos (exponent q - 52)
  have low := (exponent_spec positive).1
  have bottom : pow2 (exponent q) = 2 ^ 52 * pow2 (exponent q - 52) := by
    rw [pow2_eq_zpow, pow2_eq_zpow, zpow_sub₀ (by norm_num)]
    field_simp
  have rounded := roundEven_le (q / pow2 (exponent q - 52))
  rw [nearest_of_pos positive]
  calc (roundEven (q / pow2 (exponent q - 52)) : ℚ) * pow2 (exponent q - 52)
      ≤ (q / pow2 (exponent q - 52) + 1 / 2) * pow2 (exponent q - 52) :=
        mul_le_mul_of_nonneg_right rounded ulpPos.le
    _ = q + pow2 (exponent q - 52) / 2 := by field_simp
    _ ≤ q * (1 + 1 / 2 ^ 53) := by linarith

theorem trunc_mono {a : ℚ} (nonneg : 0 ≤ a) (le : a ≤ b) : trunc a ≤ trunc b := by
  unfold trunc
  rw [if_pos nonneg, if_pos (nonneg.trans le)]
  exact Int.floor_le_floor le

theorem trunc_nonneg (nonneg : 0 ≤ q) : 0 ≤ trunc q := by
  unfold trunc
  rw [if_pos nonneg]
  exact Int.floor_nonneg.mpr nonneg

theorem trunc_le (nonneg : 0 ≤ q) : (trunc q : ℚ) ≤ q := by
  unfold trunc
  rw [if_pos nonneg]
  exact (floor_bounds q).1

end Binary64
