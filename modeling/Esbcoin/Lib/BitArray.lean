import Mathlib.Data.List.Basic
import Mathlib.Data.Nat.Bitwise

/-!
# Bits in an array of bytes

Bit `n` of an array is bit `n % 8` of byte `n / 8`.
-/

namespace BitArray

/-- Bit `n` of the array. -/
def bit (bytes : List UInt8) (n : Nat) : Bool := (bytes.getD (n / 8) 0).toNat.testBit (n % 8)

/-- The array with bit `n` set. -/
def setBit (bytes : List UInt8) (n : Nat) : List UInt8 :=
  bytes.modify (n / 8) fun byte => UInt8.ofNat (byte.toNat ||| 1 <<< (n % 8))

/-- The array with several bits set. -/
def setBits (bytes : List UInt8) (marks : List Nat) : List UInt8 := marks.foldl setBit bytes

/-- All these bits are set. -/
def allSet (bytes : List UInt8) (marks : List Nat) : Bool := marks.all (bit bytes)

/-- Every bit that is set in the first array is set in the second. -/
def Grows (bytes bytes' : List UInt8) : Prop := ∀ n, bit bytes n = true → bit bytes' n = true

section

variable (bytes : List UInt8)
include bytes

@[simp] theorem setBits_cons (n : Nat) (marks : List Nat) :
    setBits bytes (n :: marks) = setBits (setBit bytes n) marks := rfl

@[simp] theorem allSet_cons (n : Nat) (marks : List Nat) :
    allSet bytes (n :: marks) = (bit bytes n && allSet bytes marks) := rfl

/-- Asking for a bit with a mask. -/
theorem bit_eq_false_iff (n : Nat) :
    bit bytes n = false ↔ (bytes.getD (n / 8) 0).toNat &&& 1 <<< (n % 8) = 0 := by
  rw [Nat.one_shiftLeft, Nat.and_two_pow, bit]
  cases (bytes.getD (n / 8) 0).toNat.testBit (n % 8) <;> simp

@[simp] theorem length_setBit (n : Nat) :
    (setBit bytes n).length = bytes.length := List.length_modify ..

@[simp] theorem length_setBits (marks : List Nat) :
    (setBits bytes marks).length = bytes.length := by
  induction marks generalizing bytes with
  | nil => rfl
  | cons n marks ih => rw [setBits, List.foldl_cons, ← setBits, ih, length_setBit]

end

theorem toNat_setMask (byte : UInt8) {k : Nat} (small : k < 8) :
    (UInt8.ofNat (byte.toNat ||| 1 <<< k)).toNat = byte.toNat ||| 1 <<< k := by
  have mask : 1 <<< k < 2 ^ 8 := by
    rw [Nat.one_shiftLeft]
    exact Nat.pow_lt_pow_right (by decide) small
  rw [UInt8.toNat_ofNat', Nat.mod_eq_of_lt (Nat.or_lt_two_pow byte.toNat_lt mask)]

variable {bytes : List UInt8} {marks : List Nat}

theorem bit_setBit {n : Nat} (inside : n / 8 < bytes.length) (m : Nat) :
    bit (setBit bytes n) m = (bit bytes m || decide (n = m)) := by
  unfold bit setBit
  rw [List.getD_eq_getElem?_getD, List.getD_eq_getElem?_getD]
  by_cases here : n / 8 = m / 8
  · rw [← here, List.getElem?_modify_eq, List.getElem?_eq_getElem inside, Option.map_eq_map,
      Option.map_some, Option.getD_some, Option.getD_some, toNat_setMask _ (Nat.mod_lt n (by decide)),
      Nat.testBit_or, Nat.one_shiftLeft, Nat.testBit_two_pow]
    congr 1
    exact decide_eq_decide.mpr (by omega)
  · have other : n ≠ m := fun same => here (by rw [same])
    rw [List.getElem?_modify_ne _ _ here, decide_eq_false other, Bool.or_false]

theorem Grows.refl (bytes : List UInt8) : Grows bytes bytes := fun _ => id

theorem Grows.trans {bytes' bytes'' : List UInt8} (first : Grows bytes bytes')
    (second : Grows bytes' bytes'') : Grows bytes bytes'' := fun n set => second n (first n set)

theorem grows_setBit (bytes : List UInt8) (n : Nat) : Grows bytes (setBit bytes n) := by
  intro m set
  by_cases inside : n / 8 < bytes.length
  · rw [bit_setBit inside, set, Bool.true_or]
  · rw [setBit, List.modify_eq_self (Nat.not_lt.mp inside)]
    exact set

theorem grows_setBits (bytes : List UInt8) (marks : List Nat) :
    Grows bytes (setBits bytes marks) := by
  induction marks generalizing bytes with
  | nil => exact .refl bytes
  | cons n marks ih => exact (grows_setBit bytes n).trans (ih (setBit bytes n))

theorem allSet_iff : allSet bytes marks = true ↔ ∀ n ∈ marks, bit bytes n = true := List.all_eq_true

theorem Grows.allSet {bytes' : List UInt8} (grows : Grows bytes bytes')
    (set : allSet bytes marks = true) : allSet bytes' marks = true :=
  allSet_iff.mpr fun n mem => grows n (allSet_iff.mp set n mem)

/-- What is set is found. -/
theorem allSet_setBits (inside : ∀ n ∈ marks, n < bytes.length * 8) :
    allSet (setBits bytes marks) marks = true := by
  induction marks generalizing bytes with
  | nil => rfl
  | cons n marks ih =>
    obtain ⟨here, later⟩ := List.forall_mem_cons.mp inside
    have slot : n / 8 < bytes.length := by omega
    have first : bit (setBit bytes n) n = true := by
      rw [bit_setBit slot, decide_eq_true rfl, Bool.or_true]
    have rest := @ih (setBit bytes n) (by rw [length_setBit]; exact later)
    refine allSet_iff.mpr (List.forall_mem_cons.mpr ⟨?_, allSet_iff.mp rest⟩)
    exact grows_setBits (setBit bytes n) marks n first

theorem exists_ne_zero_of_bit {n : Nat} (set : bit bytes n = true) : ∃ byte ∈ bytes, byte ≠ 0 := by
  rw [bit, List.getD_eq_getElem?_getD] at set
  cases found : bytes[n / 8]? with
  | none =>
    rw [found] at set
    simp at set
  | some byte =>
    refine ⟨byte, List.mem_of_getElem? found, ?_⟩
    rintro rfl
    rw [found] at set
    simp at set

end BitArray
