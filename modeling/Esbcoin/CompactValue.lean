import Mathlib.Data.Nat.Bitwise
import Esbcoin.Compact

namespace Esbcoin

/-- The size byte of a compact form. -/
def compactBytes (nCompact : UInt32) : Nat := nCompact.toNat / 2 ^ 24

/-- The 23 bits of the mantissa. -/
def compactMantissa (nCompact : UInt32) : Nat := nCompact.toNat % 2 ^ 23

/-- The number a compact form stands for, without its sign and without a bound. -/
def compactValue (nCompact : UInt32) : Nat :=
  if compactBytes nCompact ≤ 3 then compactMantissa nCompact / 256 ^ (3 - compactBytes nCompact)
  else compactMantissa nCompact * 256 ^ (compactBytes nCompact - 3)

theorem compactMantissa_lt (nCompact : UInt32) : compactMantissa nCompact < 2 ^ 23 :=
  Nat.mod_lt _ (by decide)

private theorem pow_256 (k : Nat) : 256 ^ k = 2 ^ (8 * k) := by
  rw [Nat.pow_mul]

private theorem and_mantissa (nCompact : UInt32) :
    (nCompact &&& 0x007fffff).toNat = compactMantissa nCompact := by
  rw [UInt32.toNat_and, compactMantissa]
  exact Nat.and_two_pow_sub_one_eq_mod _ 23

private theorem shift_size (nCompact : UInt32) :
    (nCompact >>> 24).toNat = compactBytes nCompact := by
  rw [UInt32.toNat_shiftRight, compactBytes, Nat.shiftRight_eq_div_pow]
  rfl

/-- `SetCompact` reads the number, cut to 256 bits. -/
theorem setCompact_toNat (nCompact : UInt32) :
    (setCompact nCompact).toNat = compactValue nCompact % 2 ^ 256 := by
  have mantissa := compactMantissa_lt nCompact
  have small : compactMantissa nCompact % 2 ^ 256 = compactMantissa nCompact :=
    Nat.mod_eq_of_lt (by omega)
  unfold setCompact compactValue
  simp only [and_mantissa, shift_size]
  by_cases few : compactBytes nCompact ≤ 3
  · rw [if_pos few, if_pos few, BitVec.toNat_ushiftRight, BitVec.toNat_ofNat, small,
      Nat.shiftRight_eq_div_pow, pow_256]
    have := Nat.div_le_self (compactMantissa nCompact) (2 ^ (8 * (3 - compactBytes nCompact)))
    rw [Nat.mod_eq_of_lt (by omega)]
  · rw [if_neg few, if_neg few, BitVec.toNat_shiftLeft, BitVec.toNat_ofNat, small,
      Nat.shiftLeft_eq, pow_256]

/-! ## The flags -/

private theorem compactWord_toNat (nCompact : UInt32) :
    (compactWord nCompact).toNat =
      if compactBytes nCompact ≤ 3 then compactMantissa nCompact / 256 ^ (3 - compactBytes nCompact)
      else compactMantissa nCompact := by
  have size : nCompact >>> 24 ≤ 3 ↔ compactBytes nCompact ≤ 3 := by
    rw [UInt32.le_iff_toNat_le, shift_size]
    rfl
  unfold compactWord
  simp only [size]
  by_cases few : compactBytes nCompact ≤ 3
  · have shift : ((8 : UInt32) * ((3 : UInt32) - nCompact >>> 24)).toNat =
        8 * (3 - compactBytes nCompact) := by
      have three : ((3 : UInt32) - nCompact >>> 24).toNat = 3 - compactBytes nCompact := by
        rw [UInt32.toNat_sub_of_le _ _ (size.mpr few), shift_size]
        rfl
      rw [UInt32.toNat_mul, three, show (8 : UInt32).toNat = 8 from rfl]
      omega
    rw [if_pos few, if_pos few, UInt32.toNat_shiftRight, and_mantissa, shift,
      Nat.shiftRight_eq_div_pow, pow_256, Nat.mod_eq_of_lt (by omega)]
  · rw [if_neg few, if_neg few, and_mantissa]

variable {size n m : Nat}

private theorem compactValue_lt_iff {mantissa : Nat} (positive : 0 < mantissa)
    (small : mantissa < 2 ^ 23) (more : 3 < size) :
    mantissa * 256 ^ (size - 3) < 2 ^ 256 ↔
      ¬ (34 < size ∨ 255 < mantissa ∧ 33 < size ∨ 65535 < mantissa ∧ 32 < size) := by
  have base : (2 : Nat) ^ 256 = 256 ^ 32 := by decide
  rw [base]
  by_cases huge : 34 < size
  · have : 256 ^ 32 ≤ 256 ^ (size - 3) := Nat.pow_le_pow_right (by decide) (by omega)
    have : 256 ^ (size - 3) ≤ mantissa * 256 ^ (size - 3) := Nat.le_mul_of_pos_left _ positive
    omega
  by_cases few : size ≤ 31
  · have bound : 256 ^ (size - 3) ≤ 256 ^ 28 := Nat.pow_le_pow_right (by decide) (by omega)
    have : mantissa * 256 ^ (size - 3) ≤ mantissa * 256 ^ 28 := Nat.mul_le_mul_left _ bound
    omega
  obtain rfl | rfl | rfl : size = 32 ∨ size = 33 ∨ size = 34 := by omega
  · omega
  · omega
  · omega

/-- The overflow flag is set if and only if the number does not fit in 256 bits. -/
theorem compactOverflow_eq_false_iff (nCompact : UInt32) :
    compactOverflow nCompact = false ↔ compactValue nCompact < 2 ^ 256 := by
  have mantissa := compactMantissa_lt nCompact
  have word := compactWord_toNat nCompact
  have flags : compactOverflow nCompact = false ↔ ((compactWord nCompact).toNat = 0 ∨
      ¬ (34 < compactBytes nCompact ∨
        255 < (compactWord nCompact).toNat ∧ 33 < compactBytes nCompact ∨
        65535 < (compactWord nCompact).toNat ∧ 32 < compactBytes nCompact)) := by
    have zero : compactWord nCompact = 0 ↔ (compactWord nCompact).toNat = 0 :=
      UInt32.toNat_inj.symm
    simp only [compactOverflow, gt_iff_lt, UInt32.lt_iff_toNat_lt, shift_size, bne,
      Bool.and_eq_false_iff, Bool.or_eq_false_iff, Bool.not_eq_false', decide_eq_false_iff_not,
      beq_iff_eq, zero, not_or, UInt32.reduceToNat, and_assoc]
    grind
  rw [flags, word, compactValue]
  by_cases few : compactBytes nCompact ≤ 3
  · rw [if_pos few, if_pos few]
    have := Nat.div_le_self (compactMantissa nCompact) (256 ^ (3 - compactBytes nCompact))
    constructor
    · intro _
      omega
    · intro _
      omega
  · rw [if_neg few, if_neg few]
    by_cases zero : compactMantissa nCompact = 0
    · simp [zero]
    · rw [compactValue_lt_iff (by omega) mantissa (by omega)]
      omega

/-! ## Writing a number -/

/-- The bytes of the compact form of a number, where the sign bit stays free. -/
def writtenSize (n : Nat) : Nat := if n = 0 then 0 else (n.log2 + 1) / 8 + 1

/-- The three top bytes of a number that is written in `size` bytes. -/
def topBytes (n size : Nat) : Nat :=
  if size ≤ 3 then n * 256 ^ (3 - size) else n / 256 ^ (size - 3)

/-- The mantissa that `GetCompact` writes. -/
def writtenMantissa (n : Nat) : Nat := topBytes n (writtenSize n)

/-- What a compact form keeps of a number: its top bytes. -/
def keptTop (n : Nat) : Nat := n / 256 ^ (writtenSize n - 3) * 256 ^ (writtenSize n - 3)

theorem lt_pow_writtenSize (n : Nat) : 2 * n < 256 ^ writtenSize n := by
  unfold writtenSize
  by_cases zero : n = 0
  · simp [zero]
  have below : n < 2 ^ (n.log2 + 1) := Nat.lt_log2_self
  have more : 2 ^ (n.log2 + 2) ≤ 2 ^ (8 * ((n.log2 + 1) / 8 + 1)) :=
    Nat.pow_le_pow_right (by decide) (by omega)
  rw [if_neg zero, pow_256]
  have : 2 ^ (n.log2 + 2) = 2 * 2 ^ (n.log2 + 1) := by rw [Nat.pow_succ, Nat.mul_comm]
  omega

/-- Below a bound, the top bytes are: with one bit to spare, the sign bit is free. -/
theorem topBytes_lt (spare : Nat) (bound : spare * n < 256 ^ size) :
    spare * topBytes n size < 256 ^ 3 := by
  unfold topBytes
  by_cases few : size ≤ 3
  · rw [if_pos few, ← Nat.mul_assoc]
    calc spare * n * 256 ^ (3 - size)
        < 256 ^ size * 256 ^ (3 - size) :=
          Nat.mul_lt_mul_of_pos_right bound (Nat.pow_pos (by decide))
      _ = 256 ^ 3 := by rw [← Nat.pow_add, Nat.add_sub_cancel' few]
  rw [if_neg few]
  have split : 256 ^ size = 256 ^ 3 * 256 ^ (size - 3) := by
    rw [← Nat.pow_add, Nat.add_sub_cancel' (by omega)]
  apply Nat.lt_of_mul_lt_mul_right (a := 256 ^ (size - 3))
  calc spare * (n / 256 ^ (size - 3)) * 256 ^ (size - 3)
      ≤ spare * n := by
        rw [Nat.mul_assoc]
        exact Nat.mul_le_mul_left _ (Nat.div_mul_le_self _ _)
    _ < 256 ^ 3 * 256 ^ (size - 3) := by rw [← split]; exact bound

theorem writtenMantissa_lt (n : Nat) : writtenMantissa n < 2 ^ 23 := by
  have half : 2 * writtenMantissa n < 256 ^ 3 := topBytes_lt 2 (lt_pow_writtenSize n)
  omega

private theorem or_size {word : UInt32} (small : word.toNat < 2 ^ 24) (byte : size < 256) :
    (word ||| UInt32.ofNat size <<< 24).toNat = word.toNat + size * 2 ^ 24 := by
  have shifted : (UInt32.ofNat size <<< 24).toNat = size <<< 24 := by
    rw [UInt32.toNat_shiftLeft, UInt32.toNat_ofNat', show (24 : UInt32).toNat = 24 from rfl,
      Nat.mod_eq_of_lt (by omega : size < 2 ^ 32), Nat.shiftLeft_eq, show 24 % 32 = 24 from rfl]
    exact Nat.mod_eq_of_lt (by omega)
  rw [UInt32.toNat_or, shifted, Nat.or_comm, ← Nat.shiftLeft_add_eq_or_of_lt small,
    Nat.shiftLeft_eq, Nat.add_comm]

private theorem sign_iff {word : UInt32} (small : word.toNat < 2 ^ 24) :
    word &&& 0x00800000 ≠ 0 ↔ 2 ^ 23 ≤ word.toNat := by
  have bit : (word &&& 0x00800000).toNat = (word.toNat.testBit 23).toNat * 2 ^ 23 := by
    rw [UInt32.toNat_and]
    exact Nat.and_two_pow _ 23
  rw [ne_eq, ← UInt32.toNat_inj, bit, Nat.testBit_eq_decide_div_mod_eq]
  by_cases high : 2 ^ 23 ≤ word.toNat
  · have set : word.toNat / 2 ^ 23 % 2 = 1 := by omega
    rw [decide_eq_true set]
    exact iff_of_true (by decide) high
  · have clear : ¬ word.toNat / 2 ^ 23 % 2 = 1 := by omega
    rw [decide_eq_false clear]
    exact iff_of_false (by decide) high

/-- The sign bit is in the way if and only if the highest bit of the number is the first of its
byte. -/
private theorem sign_topBytes (size : Nat) (positive : n ≠ 0) (bytes : size = (n.log2 + 1 + 7) / 8)
    : 2 ^ 23 ≤ topBytes n size ↔ n.log2 + 1 = 8 * size := by
  have top : 2 ^ (8 * size - 1) ≤ n ↔ 8 * size - 1 ≤ n.log2 := (Nat.le_log2 positive).symm
  have reach : 2 ^ 23 ≤ topBytes n size ↔ 2 ^ (8 * size - 1) ≤ n := by
    unfold topBytes
    by_cases few : size ≤ 3
    · have split : (2 : Nat) ^ 23 = 2 ^ (8 * size - 1) * 2 ^ (8 * (3 - size)) := by
        rw [← Nat.pow_add]
        congr 1
        omega
      rw [if_pos few, pow_256, split]
      exact Nat.mul_le_mul_right_iff (Nat.pow_pos (by decide))
    · have split : (2 : Nat) ^ (8 * size - 1) = 2 ^ 23 * 2 ^ (8 * (size - 3)) := by
        rw [← Nat.pow_add]
        congr 1
        omega
      rw [if_neg few, pow_256, Nat.le_div_iff_mul_le (Nat.pow_pos (by decide)), split]
  rw [reach, top]
  omega

/-- The mantissa once the sign bit is free. -/
private theorem topBytes_div (n size : Nat) : topBytes n size / 256 = topBytes n (size + 1) := by
  unfold topBytes
  by_cases few : size + 1 ≤ 3
  · rw [if_pos (by omega), if_pos few, show 3 - size = 3 - (size + 1) + 1 by omega, Nat.pow_succ,
      ← Nat.mul_assoc, Nat.mul_div_cancel _ (by decide)]
  rw [if_neg few]
  by_cases three : size ≤ 3
  · obtain rfl : size = 3 := by omega
    rw [if_pos three, Nat.sub_self, Nat.pow_zero, Nat.mul_one, Nat.add_sub_cancel_left, Nat.pow_one]
  · rw [if_neg three, show size + 1 - 3 = size - 3 + 1 by omega, Nat.pow_succ,
      Nat.div_div_eq_div_mul]

/-- `GetCompact` before it looks at the sign bit. -/
private def compactStart (v : UInt256) : UInt32 :=
  if (bits v + 7) / 8 ≤ 3 then
    (getLow64 v <<< UInt64.ofNat (8 * (3 - (bits v + 7) / 8))).toUInt32
  else (getLow64 (v >>> (8 * ((bits v + 7) / 8 - 3)))).toUInt32

variable (v : UInt256)

private theorem lt_pow_bits : v.toNat < 256 ^ ((bits v + 7) / 8) := by
  rw [pow_256]
  by_cases zero : v = 0
  · subst zero
    decide
  have below : v.toNat < 2 ^ (v.toNat.log2 + 1) := Nat.lt_log2_self
  refine lt_of_lt_of_le below (Nat.pow_le_pow_right (by decide) ?_)
  unfold bits
  rw [if_neg zero]
  omega

private theorem lt_start : topBytes v.toNat ((bits v + 7) / 8) < 2 ^ 24 := by
  have bound : 1 * topBytes v.toNat ((bits v + 7) / 8) < 256 ^ 3 :=
    topBytes_lt 1 (by rw [Nat.one_mul]; exact lt_pow_bits v)
  omega

private theorem compactStart_toNat :
    (compactStart v).toNat = topBytes v.toNat ((bits v + 7) / 8) := by
  have bound := lt_start v
  have bytes := lt_pow_bits v
  unfold compactStart topBytes getLow64 at *
  generalize (bits v + 7) / 8 = size at *
  by_cases few : size ≤ 3
  · have small : 256 ^ size ≤ 256 ^ 3 := Nat.pow_le_pow_right (by decide) few
    have shift : 8 * (3 - size) % 2 ^ 64 % 64 = 8 * (3 - size) := by omega
    rw [if_pos few] at bound ⊢
    rw [if_pos few, UInt64.toNat_toUInt32, UInt64.toNat_shiftLeft, UInt64.toNat_ofNat',
      UInt64.toNat_ofNat', shift, Nat.shiftLeft_eq, ← pow_256,
      Nat.mod_eq_of_lt (by omega : v.toNat < 2 ^ 64), Nat.mod_eq_of_lt (by omega : _ < 2 ^ 64),
      Nat.mod_eq_of_lt (by omega)]
  · rw [if_neg few] at bound ⊢
    rw [if_neg few, UInt64.toNat_toUInt32, UInt64.toNat_ofNat', BitVec.toNat_ushiftRight,
      Nat.shiftRight_eq_div_pow, ← pow_256, Nat.mod_eq_of_lt (by omega : _ < 2 ^ 64),
      Nat.mod_eq_of_lt (by omega)]

private theorem getCompact_eq :
    getCompact v false =
      (if compactStart v &&& 0x00800000 ≠ 0 then compactStart v >>> 8 else compactStart v) |||
        UInt32.ofNat (if compactStart v &&& 0x00800000 ≠ 0 then (bits v + 7) / 8 + 1
          else (bits v + 7) / 8) <<< 24 := by
  simp only [getCompact, compactStart, Bool.false_eq_true, false_and, if_false, UInt32.or_zero]
  rfl

private theorem bytes_le : (bits v + 7) / 8 ≤ 32 := by
  unfold bits
  by_cases zero : v = 0
  · rw [if_pos zero]
    omega
  have nonzero : v.toNat ≠ 0 := fun equal => zero (BitVec.eq_of_toNat_eq equal)
  have := (Nat.log2_lt nonzero).mpr v.isLt
  rw [if_neg zero]
  omega

/-- The size that `GetCompact` writes, once the sign bit is free. -/
private theorem writtenSize_eq :
    writtenSize v.toNat = if 2 ^ 23 ≤ topBytes v.toNat ((bits v + 7) / 8) then (bits v + 7) / 8 + 1
      else (bits v + 7) / 8 := by
  by_cases zero : v = 0
  · subst zero
    decide
  have nonzero : v.toNat ≠ 0 := fun equal => zero (BitVec.eq_of_toNat_eq equal)
  have size : bits v = v.toNat.log2 + 1 := if_neg zero
  have sign := sign_topBytes ((bits v + 7) / 8) nonzero (by rw [size])
  unfold writtenSize
  rw [if_neg nonzero]
  by_cases high : 2 ^ 23 ≤ topBytes v.toNat ((bits v + 7) / 8)
  · have := sign.mp high
    rw [if_pos high]
    omega
  · have := fun equal => high (sign.mpr equal)
    rw [if_neg high]
    omega

/-- `GetCompact` writes the top bytes of the number and how many bytes it has. -/
theorem getCompact_toNat :
    (getCompact v false).toNat = writtenMantissa v.toNat + writtenSize v.toNat * 2 ^ 24 := by
  have start := compactStart_toNat v
  have small := lt_start v
  have bytes := bytes_le v
  have size := writtenSize_eq v
  rw [← start] at small
  rw [getCompact_eq, writtenMantissa, size, ← start]
  simp only [sign_iff small]
  by_cases signed : 2 ^ 23 ≤ (compactStart v).toNat
  · have eight : (compactStart v >>> 8).toNat = (compactStart v).toNat / 256 := by
      rw [UInt32.toNat_shiftRight, Nat.shiftRight_eq_div_pow]
      rfl
    rw [if_pos signed, if_pos signed, or_size (by omega) (by omega), eight, start, topBytes_div]
  · rw [if_neg signed, if_neg signed, or_size small (by omega), start]

/-- Writing a number and reading it back keeps its top bytes. -/
theorem compactValue_getCompact : compactValue (getCompact v false) = keptTop v.toNat := by
  have mantissa := writtenMantissa_lt v.toNat
  have read : compactBytes (getCompact v false) = writtenSize v.toNat ∧
      compactMantissa (getCompact v false) = writtenMantissa v.toNat := by
    unfold compactBytes compactMantissa
    rw [getCompact_toNat]
    omega
  unfold compactValue keptTop
  rw [read.1, read.2, writtenMantissa, topBytes]
  by_cases few : writtenSize v.toNat ≤ 3
  · rw [if_pos few, if_pos few, Nat.mul_div_cancel _ (Nat.pow_pos (by decide)),
      Nat.sub_eq_zero_of_le few, Nat.pow_zero, Nat.div_one, Nat.mul_one]
  · rw [if_neg few, if_neg few]

theorem keptTop_le (n : Nat) : keptTop n ≤ n := Nat.div_mul_le_self _ _

theorem setCompact_getCompact : (setCompact (getCompact v false)).toNat = keptTop v.toNat := by
  have := keptTop_le v.toNat
  rw [setCompact_toNat, compactValue_getCompact, Nat.mod_eq_of_lt (by omega)]

/-- The highest bit of a number of more than three bytes is kept. -/
theorem pow_le_keptTop (more : 3 < writtenSize n) : 2 ^ (8 * writtenSize n - 9) ≤ keptTop n := by
  have nonzero : n ≠ 0 := by
    rintro rfl
    revert more
    decide
  have size : writtenSize n = (n.log2 + 1) / 8 + 1 := if_neg nonzero
  have top : 2 ^ (8 * writtenSize n - 9) ≤ n := (Nat.le_log2 nonzero).mp (by omega)
  have split : 2 ^ (8 * writtenSize n - 9) = 2 ^ 15 * 256 ^ (writtenSize n - 3) := by
    rw [pow_256, ← Nat.pow_add]
    congr 1
    omega
  rw [split] at top ⊢
  exact Nat.mul_le_mul_right _ ((Nat.le_div_iff_mul_le (Nat.pow_pos (by decide))).mpr top)

theorem keptTop_of_few (few : writtenSize n ≤ 3) : keptTop n = n := by
  rw [keptTop, Nat.sub_eq_zero_of_le few, Nat.pow_zero, Nat.div_one, Nat.mul_one]

/-- At least half of a number is kept. -/
theorem lt_two_mul_keptTop (nonzero : n ≠ 0) : n < 2 * keptTop n := by
  by_cases few : writtenSize n ≤ 3
  · rw [keptTop_of_few few]
    omega
  have top := pow_le_keptTop (by omega : 3 < writtenSize n)
  have step : 256 ^ (writtenSize n - 3) ≤ 2 ^ (8 * writtenSize n - 9) := by
    rw [pow_256]
    exact Nat.pow_le_pow_right (by decide) (by omega)
  have rest : n < keptTop n + 256 ^ (writtenSize n - 3) := by
    exact Nat.lt_div_mul_add (Nat.pow_pos (by decide))
  omega

theorem writtenSize_mono (less : m ≤ n) : writtenSize m ≤ writtenSize n := by
  unfold writtenSize
  by_cases zero : m = 0
  · rw [if_pos zero]
    exact Nat.zero_le _
  have := (Nat.le_log2 (by omega : n ≠ 0)).mpr
    (Nat.le_trans (Nat.log2_self_le zero) less)
  rw [if_neg zero, if_neg (by omega)]
  omega

/-- What is kept of a number grows with it. -/
theorem keptTop_mono (less : m ≤ n) : keptTop m ≤ keptTop n := by
  have sizes := writtenSize_mono less
  by_cases same : writtenSize m = writtenSize n
  · unfold keptTop
    rw [same]
    exact Nat.mul_le_mul_right _ (Nat.div_le_div_right less)
  by_cases few : writtenSize n ≤ 3
  · rw [keptTop_of_few few]
    exact Nat.le_trans (keptTop_le m) less
  -- the smaller number does not reach the highest bit that is kept of the larger one
  have top := pow_le_keptTop (by omega : 3 < writtenSize n)
  have below := lt_pow_writtenSize m
  have reach : 256 ^ writtenSize m ≤ 2 * 2 ^ (8 * writtenSize n - 9) := by
    rw [pow_256, ← Nat.pow_succ']
    exact Nat.pow_le_pow_right (by decide) (by omega)
  have := keptTop_le m
  omega

/-- What is lost is less than a part in `2 ^ 15`. -/
theorem lost_lt (nonzero : n ≠ 0) : 2 ^ 15 * (n - keptTop n) < n := by
  by_cases few : writtenSize n ≤ 3
  · rw [keptTop_of_few few]
    omega
  have top := pow_le_keptTop (by omega : 3 < writtenSize n)
  have split : 2 ^ (8 * writtenSize n - 9) = 2 ^ 15 * 256 ^ (writtenSize n - 3) := by
    rw [pow_256, ← Nat.pow_add]
    congr 1
    omega
  have rest : n < keptTop n + 256 ^ (writtenSize n - 3) :=
    Nat.lt_div_mul_add (Nat.pow_pos (by decide))
  have below := keptTop_le n
  omega

theorem topBytes_mono (less : m ≤ n) (size : Nat) : topBytes m size ≤ topBytes n size := by
  unfold topBytes
  split
  · exact Nat.mul_le_mul_right _ less
  · exact Nat.div_le_div_right less

theorem getCompact_mono {v w : UInt256} (less : v ≤ w) : getCompact v false ≤ getCompact w false := by
  have less : v.toNat ≤ w.toNat := less
  have sizes := writtenSize_mono less
  have mantissa := writtenMantissa_lt v.toNat
  rw [UInt32.le_iff_toNat_le, getCompact_toNat, getCompact_toNat]
  by_cases same : writtenSize v.toNat = writtenSize w.toNat
  · have tops := topBytes_mono less (writtenSize w.toNat)
    unfold writtenMantissa
    rw [same]
    omega
  · omega

/-! ## Canonical forms -/

/-- `nCompact` and `nSize` at the assertions of `GetCompact` (`uint256.cpp:294-308`). -/
def assertedParts (v : UInt256) : UInt32 × Nat :=
  let nSize := (bits v + 7) / 8
  let nCompact :=
    if nSize ≤ 3 then (getLow64 v <<< UInt64.ofNat (8 * (3 - nSize))).toUInt32
    else (getLow64 (v >>> (8 * (nSize - 3)))).toUInt32
  if nCompact &&& 0x00800000 ≠ 0 then (nCompact >>> 8, nSize + 1) else (nCompact, nSize)

/-- The form of zero, or one that is not negative and has no byte it can do without. -/
def CompactCanonical (nCompact : UInt32) : Prop :=
  nCompact = 0 ∨ nCompact &&& 0x00800000 = 0 ∧ 2 ^ 15 ≤ compactMantissa nCompact ∧
    256 ^ (3 - compactBytes nCompact) ∣ compactMantissa nCompact

theorem assertedParts_bounds :
    (assertedParts v).1 &&& ~~~0x007fffff = 0 ∧ (assertedParts v).2 < 256 := by
  have start := compactStart_toNat v
  have small := lt_start v
  have bytes := bytes_le v
  rw [← start] at small
  have shown : assertedParts v = if compactStart v &&& 0x00800000 ≠ 0
      then (compactStart v >>> 8, (bits v + 7) / 8 + 1)
      else (compactStart v, (bits v + 7) / 8) := rfl
  have low : ∀ word : UInt32, word.toNat < 2 ^ 23 → word &&& ~~~0x007fffff = 0 := by
    intro word below
    apply UInt32.toNat_inj.mp
    rw [UInt32.toNat_and]
    apply Nat.eq_of_testBit_eq
    intro i
    rw [Nat.testBit_and]
    by_cases high : 23 ≤ i
    · rw [Nat.testBit_lt_two_pow
        (Nat.lt_of_lt_of_le below (Nat.pow_le_pow_right (by decide) high))]
      simp
    · have outside : ∀ i < 23, (~~~0x007fffff : UInt32).toNat.testBit i = false := by decide
      rw [outside i (by omega)]
      simp
  rw [shown]
  simp only [sign_iff small]
  by_cases signed : 2 ^ 23 ≤ (compactStart v).toNat
  · rw [if_pos signed]
    refine ⟨low _ ?_, show (bits v + 7) / 8 + 1 < 256 by omega⟩
    show (compactStart v >>> 8).toNat < _
    rw [UInt32.toNat_shiftRight, Nat.shiftRight_eq_div_pow]
    show (compactStart v).toNat / 256 < _
    omega
  · rw [if_neg signed]
    exact ⟨low _ (Nat.lt_of_not_le signed), show (bits v + 7) / 8 < 256 by omega⟩

private theorem writtenSize_of_bounds (positive : n ≠ 0) (some : 1 ≤ size)
    (low : 2 ^ (8 * size - 9) ≤ n) (high : n < 2 ^ (8 * size - 1)) : writtenSize n = size := by
  have above := (Nat.le_log2 positive).mpr low
  have below := (Nat.log2_lt positive).mpr high
  unfold writtenSize
  rw [if_neg positive]
  omega

/-- A canonical form is the one of the number it stands for. -/
theorem CompactCanonical.written {nCompact : UInt32} (canonical : CompactCanonical nCompact) :
    nCompact.toNat = writtenMantissa (compactValue nCompact) +
      writtenSize (compactValue nCompact) * 2 ^ 24 := by
  rcases canonical with rfl | ⟨unsigned, top, whole⟩
  · decide
  have mantissa := compactMantissa_lt nCompact
  have parts : nCompact.toNat = compactMantissa nCompact + compactBytes nCompact * 2 ^ 24 := by
    have bit : (nCompact &&& 0x00800000).toNat = (nCompact.toNat.testBit 23).toNat * 2 ^ 23 := by
      rw [UInt32.toNat_and]
      exact Nat.and_two_pow _ 23
    have clear : nCompact.toNat.testBit 23 = false := by
      cases set : nCompact.toNat.testBit 23 with
      | false => rfl
      | true =>
        rw [unsigned, set] at bit
        exact absurd bit (by decide)
    rw [Nat.testBit_eq_decide_div_mod_eq, decide_eq_false_iff_not] at clear
    unfold compactMantissa compactBytes
    omega
  have sized : compactValue nCompact ≠ 0 ∧ 1 ≤ compactBytes nCompact ∧
      2 ^ (8 * compactBytes nCompact - 9) ≤ compactValue nCompact ∧
      compactValue nCompact < 2 ^ (8 * compactBytes nCompact - 1) ∧
      topBytes (compactValue nCompact) (compactBytes nCompact) = compactMantissa nCompact := by
    unfold compactValue topBytes
    generalize compactBytes nCompact = size at *
    by_cases few : size ≤ 3
    · obtain ⟨k, equal⟩ := whole
      rw [if_pos few, if_pos few, equal, Nat.mul_div_cancel_left _ (Nat.pow_pos (by decide)),
        Nat.mul_comm]
      obtain rfl | rfl | rfl | rfl : size = 0 ∨ size = 1 ∨ size = 2 ∨ size = 3 := by omega
      all_goals omega
    have low : 2 ^ (8 * size - 9) = 2 ^ 15 * 256 ^ (size - 3) := by
      rw [pow_256, ← Nat.pow_add]
      congr 1
      omega
    have high : 2 ^ (8 * size - 1) = 2 ^ 23 * 256 ^ (size - 3) := by
      rw [pow_256, ← Nat.pow_add]
      congr 1
      omega
    have positive : 0 < 256 ^ (size - 3) := Nat.pow_pos (by decide)
    rw [if_neg few, if_neg few, low, high, Nat.mul_div_cancel _ positive]
    refine ⟨(Nat.mul_pos (by omega) positive).ne', by omega,
      Nat.mul_le_mul_right _ top, Nat.mul_lt_mul_of_pos_right mantissa positive, rfl⟩
  obtain ⟨positive, some, low, high, tops⟩ := sized
  rw [writtenMantissa, writtenSize_of_bounds positive some low high, tops, parts]

/-- `GetCompact` asserts what holds, it keeps the leading bits and the order, canonical forms come
back, and `SetCompact` sets its overflow flag where the number does not fit. -/
theorem compact_forms :
    (∀ v, (assertedParts v).1 &&& ~~~0x007fffff = 0 ∧ (assertedParts v).2 < 256) ∧
    (∀ v, setCompact (getCompact v false) ≤ v ∧ (v ≠ 0 →
      2 ^ 15 * (v.toNat - (setCompact (getCompact v false)).toNat) < v.toNat)) ∧
    (∀ v w, v ≤ w → getCompact v false ≤ getCompact w false) ∧
    (∀ nCompact, CompactCanonical nCompact → compactOverflow nCompact = false →
      getCompact (setCompact nCompact) false = nCompact) ∧
    ∀ nCompact, compactOverflow nCompact = true ↔ 2 ^ 256 ≤ compactValue nCompact := by
  refine ⟨assertedParts_bounds, fun v => ⟨?_, fun nonzero => ?_⟩, fun v w => getCompact_mono,
    fun nCompact canonical fits => ?_, fun nCompact => ?_⟩
  · show (setCompact (getCompact v false)).toNat ≤ v.toNat
    rw [setCompact_getCompact]
    exact keptTop_le _
  · rw [setCompact_getCompact]
    exact lost_lt fun equal => nonzero (BitVec.eq_of_toNat_eq equal)
  · have small := (compactOverflow_eq_false_iff nCompact).mp fits
    apply UInt32.toNat_inj.mp
    rw [getCompact_toNat, setCompact_toNat, Nat.mod_eq_of_lt small, canonical.written]
  · rw [← Nat.not_lt, ← compactOverflow_eq_false_iff, Bool.not_eq_false]

/-- Of zero there is nothing to lose. -/
theorem zero_loses_nothing : ¬ ∀ v : UInt256,
    2 ^ 15 * (v.toNat - (setCompact (getCompact v false)).toNat) < v.toNat := fun claim =>
  absurd (claim 0) (by decide)

end Esbcoin
