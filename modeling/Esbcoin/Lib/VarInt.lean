import Mathlib.Data.List.Basic

/-!
# Variable-length integers

The encoding of natural numbers in base 128, most significant group first, in which every group but
the last carries a continuation bit and is one more than its digit, so that no number has two
encodings. A reader that starts on the bytes of a number finds the number and stops behind it
(`read_write`).
-/

namespace VarInt

/-- The groups of `n` with the continuation bit set, in fuel steps. -/
def writeHigh : Nat → Nat → List UInt8
  | 0, _ => []
  | fuel + 1, n =>
    if n ≤ 0x7f then [UInt8.ofNat (n % 128 + 128)]
    else writeHigh fuel (n / 128 - 1) ++ [UInt8.ofNat (n % 128 + 128)]

/-- The bytes of `n`. -/
def write (n : Nat) : List UInt8 :=
  if n ≤ 0x7f then [UInt8.ofNat (n % 128)]
  else writeHigh n (n / 128 - 1) ++ [UInt8.ofNat (n % 128)]

/-- Read a number whose groups so far make `n`. -/
def readFrom (n : Nat) : List UInt8 → Option (Nat × List UInt8)
  | [] => none
  | chData :: rest =>
    if 0x80 ≤ chData.toNat then readFrom (n * 128 + chData.toNat % 128 + 1) rest
    else some (n * 128 + chData.toNat % 128, rest)

/-- Read a number from the front of a byte stream. -/
def read (bytes : List UInt8) : Option (Nat × List UInt8) := readFrom 0 bytes

theorem write_small (n : Nat) (h : n ≤ 0x7f) : write n = [UInt8.ofNat n] := by
  rw [write, if_pos h, Nat.mod_eq_of_lt (by omega)]

theorem readFrom_continued (n digit : Nat) (h : digit < 128) (rest : List UInt8) :
    readFrom n (UInt8.ofNat (digit + 128) :: rest) = readFrom (n * 128 + digit + 1) rest := by
  have value : (UInt8.ofNat (digit + 128)).toNat = digit + 128 := by
    rw [UInt8.toNat_ofNat']
    omega
  rw [readFrom, value, if_pos (by omega)]
  congr 1
  omega

theorem readFrom_last (n digit : Nat) (h : digit < 128) (rest : List UInt8) :
    readFrom n (UInt8.ofNat digit :: rest) = some (n * 128 + digit, rest) := by
  have value : (UInt8.ofNat digit).toNat = digit := by
    rw [UInt8.toNat_ofNat']
    omega
  rw [readFrom, value, if_neg (by omega)]
  simp only [Option.some.injEq, Prod.mk.injEq, and_true]
  omega

theorem readFrom_writeHigh (fuel n : Nat) (enough : n < fuel) (rest : List UInt8) :
    readFrom 0 (writeHigh fuel n ++ rest) = readFrom (n + 1) rest := by
  induction fuel generalizing n rest with
  | zero => omega
  | succ fuel ih =>
    unfold writeHigh
    by_cases small : n ≤ 0x7f
    · rw [if_pos small, List.singleton_append, readFrom_continued _ _ (by omega)]
      congr 1
      omega
    rw [if_neg small, List.append_assoc, ih _ (by omega), List.singleton_append,
      readFrom_continued _ _ (by omega)]
    congr 1
    omega

/-- What is written is read back, with the rest of the stream left. -/
theorem read_write (n : Nat) (rest : List UInt8) :
    read (write n ++ rest) = some (n, rest) := by
  unfold read write
  by_cases small : n ≤ 0x7f
  · rw [if_pos small, List.singleton_append, readFrom_last _ _ (by omega)]
    simp only [Option.some.injEq, Prod.mk.injEq, and_true]
    omega
  rw [if_neg small, List.append_assoc, readFrom_writeHigh _ _ (by omega),
    List.singleton_append, readFrom_last _ _ (by omega)]
  simp only [Option.some.injEq, Prod.mk.injEq, and_true]
  omega

/-! ### The number of bytes -/

/-- The number of bytes, in fuel steps. -/
def sizeFrom : Nat → Nat → Nat
  | 0, _ => 0
  | fuel + 1, n => if n ≤ 0x7f then 1 else 1 + sizeFrom fuel (n / 128 - 1)

/-- The number of bytes of `n`, without writing them. -/
def size (n : Nat) : Nat := sizeFrom (n + 1) n

/-- The least number with `j + 2` bytes. -/
def threshold : Nat → Nat
  | 0 => 0x80
  | j + 1 => (threshold j + 1) * 128

theorem length_writeHigh (fuel n : Nat) (enough : n < fuel) :
    (writeHigh fuel n).length = sizeFrom fuel n := by
  induction fuel generalizing n with
  | zero => omega
  | succ fuel ih =>
    unfold writeHigh sizeFrom
    by_cases small : n ≤ 0x7f
    · rw [if_pos small, if_pos small, List.length_singleton]
    · rw [if_neg small, if_neg small, List.length_append, ih _ (by omega), List.length_singleton,
        Nat.add_comm]

theorem length_write (n : Nat) : (write n).length = size n := by
  unfold write size sizeFrom
  by_cases small : n ≤ 0x7f
  · rw [if_pos small, if_pos small, List.length_singleton]
  · rw [if_neg small, if_neg small, List.length_append, length_writeHigh _ _ (by omega),
      List.length_singleton, Nat.add_comm]

theorem lt_sizeFrom_iff {j fuel n : Nat} (enough : n < fuel) :
    j + 1 < sizeFrom fuel n ↔ threshold j ≤ n := by
  induction j generalizing fuel n with
  | zero =>
    obtain ⟨fuel, rfl⟩ := Nat.exists_eq_succ_of_ne_zero (Nat.ne_zero_of_lt enough)
    rw [sizeFrom, threshold]
    by_cases small : n ≤ 0x7f
    · rw [if_pos small]
      omega
    · obtain ⟨fuel, rfl⟩ : ∃ rest, fuel = rest + 1 := ⟨fuel - 1, by omega⟩
      rw [if_neg small, sizeFrom]
      split <;> omega
  | succ j ih =>
    obtain ⟨fuel, rfl⟩ := Nat.exists_eq_succ_of_ne_zero (Nat.ne_zero_of_lt enough)
    have least : 0x80 ≤ threshold (j + 1) := by
      rw [threshold]
      omega
    rw [sizeFrom]
    by_cases small : n ≤ 0x7f
    · rw [if_pos small]
      omega
    · have shorter := ih (show n / 128 - 1 < fuel by omega)
      rw [if_neg small, threshold, Nat.add_comm 1, Nat.add_lt_add_iff_right, shorter]
      omega

/-- A number has more than `j + 1` bytes from the threshold on. -/
theorem lt_size_iff {j n : Nat} : j + 1 < size n ↔ threshold j ≤ n :=
  lt_sizeFrom_iff (Nat.lt_succ_self n)

theorem size_le {j n : Nat} (below : n < threshold j) : size n ≤ j + 1 :=
  Nat.le_of_not_lt fun longer => Nat.not_le_of_lt below (lt_size_iff.mp longer)

theorem size_pos (n : Nat) : 0 < size n := by
  unfold size sizeFrom
  split <;> omega

theorem threshold_mono {i j : Nat} (le : i ≤ j) : threshold i ≤ threshold j := by
  induction le with
  | refl => exact Nat.le_refl _
  | @step j le ih =>
    show threshold i ≤ (threshold j + 1) * 128
    omega

theorem size_mono {n m : Nat} (le : n ≤ m) : size n ≤ size m := by
  by_contra longer
  have first := (@lt_size_iff (size n - 2) n).mp
  have second := (@lt_size_iff (size n - 2) m).mpr
  have positive := size_pos m
  omega

/-- Two numbers have the same number of bytes if no threshold lies between them. -/
theorem size_eq_iff {n m : Nat} (le : n ≤ m) :
    size n = size m ↔ ∀ j, ¬(n < threshold j ∧ threshold j ≤ m) := by
  have positive := size_pos n
  have positive' := size_pos m
  constructor
  · rintro same j ⟨below, above⟩
    have longer := lt_size_iff.mpr above
    rw [← same, lt_size_iff] at longer
    omega
  intro apart
  have agree : ∀ j, j + 1 < size n ↔ j + 1 < size m := by
    intro j
    have := apart j
    rw [lt_size_iff, lt_size_iff]
    omega
  have first := agree (size n - 1)
  have second := agree (size m - 1)
  omega

end VarInt
