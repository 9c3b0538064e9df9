import Mathlib.Data.List.Basic
import Mathlib.Data.Nat.Bitwise

/-!
# A mask that ends behind its last mark

Marks, eight to a byte, the lowest bit first. The bytes behind the last mark are not written, and in
place of a length stands the number of bytes that are not zero: whoever reads that many of them has
read to the last mark (`readMask_mask`).
-/

namespace SparseMask

variable (marks : Nat → Bool)

/-- Does byte `b` hold no mark? -/
def blank (b : Nat) : Bool := (List.range 8).all fun i => !marks (b * 8 + i)

/-- Eight marks as a byte. -/
def byteAt (b : Nat) : Nat :=
  (List.range 8).foldl (fun ch i => if marks (b * 8 + i) then ch ||| 1 <<< i else ch) 0

/-- The number of bytes up to the last mark in the first `n` bytes, and of those that are not
blank. -/
def size (n : Nat) : Nat × Nat :=
  (List.range n).foldl
    (fun (nBytes, nNonzero) b => if blank marks b then (nBytes, nNonzero) else (b + 1, nNonzero + 1))
    (0, 0)

/-- The first `n` bytes. -/
def mask (n : Nat) : List UInt8 := (List.range n).map fun b => UInt8.ofNat (byteAt marks b)

/-- The bits of a byte, lowest first. -/
def bitsOf (ch : UInt8) : List Bool := (List.range 8).map fun p => ch.toNat &&& 1 <<< p != 0

/-- Read until so many bytes were not zero. -/
def readMask : Nat → List UInt8 → Option (List Bool × List UInt8)
  | 0, bytes => some ([], bytes)
  | _ + 1, [] => none
  | left + 1, ch :: bytes =>
    (readMask (if ch = 0 then left + 1 else left) bytes).map fun (bits, rest) =>
      (bitsOf ch ++ bits, rest)

theorem testBit_foldl_or (bit : Nat → Bool) (n p : Nat) :
    ((List.range n).foldl (fun ch i => if bit i then ch ||| 1 <<< i else ch) 0).testBit p =
      (decide (p < n) && bit p) := by
  induction n with
  | zero => simp
  | succ n ih =>
    rw [List.range_succ, List.foldl_append, List.foldl_cons, List.foldl_nil]
    by_cases same : p = n
    · subst same
      cases set : bit p <;> simp [set, ih, Nat.testBit_or]
    have bound : p < n + 1 ↔ p < n := by omega
    have other : (1 <<< n).testBit p = false := by
      rw [Nat.one_shiftLeft, Nat.testBit_two_pow_of_ne (Ne.symm same)]
    cases bit n <;> simp [ih, Nat.testBit_or, other, bound]

theorem byteAt_lt (b : Nat) : byteAt marks b < 256 := by
  refine Nat.lt_pow_two_of_testBit (n := 8) _ fun p outside => ?_
  rw [byteAt, testBit_foldl_or fun i => marks (b * 8 + i)]
  simp [show ¬p < 8 by omega]

theorem bitsOf_byteAt (b : Nat) :
    bitsOf (UInt8.ofNat (byteAt marks b)) = (List.range 8).map fun i => marks (b * 8 + i) := by
  refine List.map_congr_left fun i inside => ?_
  rw [UInt8.toNat_ofNat', Nat.mod_eq_of_lt (byteAt_lt marks b), Nat.one_shiftLeft, Nat.and_two_pow,
    byteAt, testBit_foldl_or fun i => marks (b * 8 + i)]
  cases marks (b * 8 + i) <;> simp [List.mem_range.mp inside]

theorem byteAt_eq_zero (b : Nat) : UInt8.ofNat (byteAt marks b) = 0 ↔ blank marks b = true := by
  have bits := bitsOf_byteAt marks b
  constructor
  · intro zero
    rw [zero] at bits
    refine List.all_eq_true.mpr fun i inside => ?_
    have none_set : ∀ bit ∈ bitsOf 0, bit = false := by decide
    have unset := none_set (marks (b * 8 + i)) (bits ▸ List.mem_map_of_mem inside)
    rw [unset, Bool.not_false]
  intro empty
  have unset := List.all_eq_true.mp empty
  suffices byteAt marks b = 0 by
    rw [this]
    rfl
  refine Nat.eq_of_testBit_eq fun p => ?_
  rw [byteAt, testBit_foldl_or fun i => marks (b * 8 + i), Nat.zero_testBit]
  by_cases inside : p < 8
  · have mark := unset p (List.mem_range.mpr inside)
    simp only [Bool.not_eq_true'] at mark
    rw [mark, Bool.and_false]
  · simp [inside]

theorem mask_succ (n : Nat) :
    mask marks (n + 1) = mask marks n ++ [UInt8.ofNat (byteAt marks n)] := by
  rw [mask, List.range_succ, List.map_append, List.map_cons, List.map_nil, mask]

@[simp] theorem length_mask (n : Nat) : (mask marks n).length = n := by
  rw [mask, List.length_map, List.length_range]

theorem size_succ (n : Nat) :
    size marks (n + 1) = if blank marks n then size marks n else (n + 1, (size marks n).2 + 1) := by
  rw [size, List.range_succ, List.foldl_append]
  rfl

/-- What `size` counts: behind its bytes there are zeros only, and it has the last mark. -/
structure Sized (n nBytes nNonzero : Nat) : Prop where
  inside : nBytes ≤ n
  mask_eq : mask marks n = mask marks nBytes ++ List.replicate (n - nBytes) 0
  counted : (mask marks nBytes).countP (· ≠ 0) = nNonzero
  last : (mask marks nBytes).getLast? ≠ some 0

theorem sized_size (n : Nat) : Sized marks n (size marks n).1 (size marks n).2 := by
  induction n with
  | zero =>
    exact ⟨Nat.le_refl 0, rfl, rfl, by simp [size, mask]⟩
  | succ n ih =>
    obtain ⟨inside, mask_eq, counted, last⟩ := ih
    have next := byteAt_eq_zero marks n
    rw [size_succ]
    by_cases empty : blank marks n = true
    · rw [if_pos empty]
      refine ⟨Nat.le_succ_of_le inside, ?_, counted, last⟩
      rw [mask_succ, next.mpr empty, mask_eq, Nat.succ_sub inside, List.replicate_succ',
        List.append_assoc]
    rw [if_neg empty]
    have nonzero : UInt8.ofNat (byteAt marks n) ≠ 0 := fun zero => empty (next.mp zero)
    refine ⟨Nat.le_refl _, by simp, ?_, ?_⟩
    · rw [mask_succ, mask_eq, List.countP_append, List.countP_append, counted]
      simp [nonzero]
    · rw [mask_succ, List.getLast?_concat]
      simpa using nonzero

theorem size_le (n : Nat) : (size marks n).2 ≤ (size marks n).1 ∧ (size marks n).1 ≤ n := by
  obtain ⟨inside, -, counted, -⟩ := sized_size marks n
  refine ⟨?_, inside⟩
  rw [← counted]
  exact List.countP_le_length.trans (Nat.le_of_eq (length_mask marks _))

/-- Behind the counted bytes there is no mark. -/
theorem unmarked {n i : Nat} (inside : i < n * 8) (behind : (size marks n).1 * 8 ≤ i) :
    marks i = false := by
  obtain ⟨-, mask_eq, -, -⟩ := sized_size marks n
  have slot : (mask marks n)[i / 8]? = some (UInt8.ofNat (byteAt marks (i / 8))) := by
    rw [mask, List.getElem?_map, List.getElem?_range (by omega), Option.map_some]
  rw [mask_eq, List.getElem?_append_right (by rw [length_mask]; omega), length_mask,
    List.getElem?_replicate, if_pos (by omega), Option.some.injEq] at slot
  have all := List.all_eq_true.mp ((byteAt_eq_zero marks (i / 8)).mp slot.symm)
  have mark := all (i % 8) (List.mem_range.mpr (by omega))
  rw [show i / 8 * 8 + i % 8 = i by omega] at mark
  simpa using mark

/-- Where every byte is zero there is no mark. -/
theorem unmarked_of_zero {n i : Nat} (zeros : (size marks n).2 = 0) (inside : i < n * 8) :
    marks i = false := by
  obtain ⟨-, -, counted, last⟩ := sized_size marks n
  -- the last byte is not zero, so there is none
  have empty : mask marks (size marks n).1 = [] := by
    rw [zeros, List.countP_eq_zero] at counted
    by_contra more
    refine last ?_
    rw [List.getLast?_eq_some_getLast more]
    simpa using counted _ (List.getLast_mem more)
  have length := length_mask marks (size marks n).1
  rw [empty, List.length_nil] at length
  exact unmarked marks inside (by omega)

/-- Where every place is marked every byte is there. -/
theorem size_of_marked {n : Nat} (all : ∀ i, i < n * 8 → marks i = true) :
    size marks n = (n, n) := by
  induction n with
  | zero => rfl
  | succ n ih =>
    have full : ¬blank marks n = true := by
      intro empty
      have unset := List.all_eq_true.mp empty 0 (by decide)
      rw [all _ (by omega)] at unset
      cases unset
    rw [size_succ, if_neg full, ih fun i inside => all i (by omega)]

theorem flatMap_bitsOf (n : Nat) :
    (mask marks n).flatMap bitsOf = (List.range (n * 8)).map marks := by
  induction n with
  | zero => rfl
  | succ n ih =>
    rw [mask_succ, List.flatMap_append, ih, List.flatMap_singleton, bitsOf_byteAt, Nat.succ_mul,
      List.range_add, List.map_append, List.map_map]
    rfl

theorem readMask_append {bytes : List UInt8} (last : bytes.getLast? ≠ some 0)
    (rest : List UInt8) :
    readMask (bytes.countP (· ≠ 0)) (bytes ++ rest) = some (bytes.flatMap bitsOf, rest) := by
  induction bytes with
  | nil => rw [List.countP_nil, List.nil_append, readMask, List.flatMap_nil]
  | cons ch bytes ih =>
    have ends : bytes.getLast? ≠ some 0 := by
      intro zero
      rw [List.getLast?_cons, zero] at last
      exact last rfl
    by_cases zero : ch = 0
    · subst zero
      have more : bytes ≠ [] := by
        rintro rfl
        exact last rfl
      have positive : 0 < bytes.countP (· ≠ 0) := by
        rw [List.countP_pos_iff]
        refine ⟨bytes.getLast more, List.getLast_mem more, ?_⟩
        rw [List.getLast?_eq_some_getLast more] at ends
        simpa using ends
      obtain ⟨left, count⟩ := Nat.exists_eq_succ_of_ne_zero (Nat.pos_iff_ne_zero.mp positive)
      have read := ih ends
      rw [List.countP_cons_of_neg (by simp), count] at *
      rw [List.cons_append, readMask, if_pos rfl, read]
      rfl
    · rw [List.countP_cons_of_pos (by simpa using zero), List.cons_append, readMask, if_neg zero,
        ih ends]
      rfl

/-- Whoever reads as many bytes that are not zero as were counted has all marks. -/
theorem readMask_mask (n : Nat) (rest : List UInt8) :
    readMask (size marks n).2 (mask marks (size marks n).1 ++ rest) =
      some ((List.range ((size marks n).1 * 8)).map marks, rest) := by
  obtain ⟨-, -, counted, last⟩ := sized_size marks n
  rw [← counted, readMask_append last, flatMap_bitsOf]

end SparseMask
