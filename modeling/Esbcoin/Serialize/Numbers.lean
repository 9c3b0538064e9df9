import Esbcoin.Compressor.Scripts

/-!
# Numbers of variable length

`WriteVarInt` with its buffer (`src/serialize.h:387-432`), and what the writers, readers and size
functions of both kinds of number agree on.
-/

namespace Esbcoin

open VarInt

/-- The first loop of `WriteVarInt` (`serialize.h:403-412`) with so much room left behind `tmp`;
`none` writes past the end of the buffer. -/
def fillTmp : Nat → Nat → List UInt8 → Option (List UInt8)
  | 0, _, _ => none
  | room + 1, n, tmp =>
    let tmp := tmp ++ [UInt8.ofNat (n % 128 + if tmp.isEmpty then 0 else 0x80)]
    if n ≤ 0x7f then some tmp else fillTmp room (n / 128 - 1) tmp

/-- `WriteVarInt` (`serialize.h:400-415`) of an unsigned type of so many bits. -/
def writeVarInt (bits n : Nat) : Option (List UInt8) :=
  (fillTmp ((bits + 6) / 7) n []).map List.reverse

theorem fillTmp_continued {room fuel n : Nat} {tmp : List UInt8} (started : tmp ≠ [])
    (enough : n < fuel) (fits : sizeFrom fuel n ≤ room) :
    fillTmp room n tmp = some (tmp ++ (writeHigh fuel n).reverse) := by
  have written : tmp.isEmpty = false := List.isEmpty_eq_false_iff.mpr started
  induction fuel generalizing room n tmp with
  | zero => omega
  | succ fuel ih =>
    rw [sizeFrom] at fits
    obtain ⟨room, rfl⟩ : ∃ more, room = more + 1 := ⟨room - 1, by split at fits <;> omega⟩
    rw [fillTmp, written, writeHigh]
    by_cases small : n ≤ 0x7f
    · rw [if_pos small, if_pos small]
      rfl
    rw [if_neg small] at fits
    rw [if_neg small, if_neg small, ih (by simp) (by omega) (by omega) (by simp),
      List.reverse_append, List.append_assoc]
    rfl

/-- The buffer holds the bytes, which leave it in the other order. -/
theorem writeVarInt_eq {bits n : Nat} (fits : size n ≤ (bits + 6) / 7) :
    writeVarInt bits n = some (write n) := by
  have positive := size_pos n
  rw [writeVarInt, write]
  rw [size, sizeFrom] at fits positive
  obtain ⟨room, places⟩ : ∃ room, (bits + 6) / 7 = room + 1 := ⟨(bits + 6) / 7 - 1, by omega⟩
  rw [places] at fits ⊢
  rw [fillTmp]
  by_cases small : n ≤ 0x7f
  · rw [if_pos small, if_pos small]
    rfl
  rw [if_neg small] at fits
  rw [if_neg small, if_neg small, @fillTmp_continued room n _ _ (by simp) (by omega) (by omega),
    Option.map_some, List.reverse_append, List.reverse_reverse]
  rfl

theorem varInt_size_le {bits n : Nat} (width : bits = 32 ∨ bits = 64) (fits : n < 2 ^ bits) :
    size n ≤ (bits + 6) / 7 := by
  rcases width with rfl | rfl
  · exact size_le (j := 4) (fits.trans (by decide))
  · exact size_le (j := 9) (fits.trans (by decide))

theorem length_compactSize (nSize : Nat) :
    (compactSize nSize).length = getSizeOfCompactSize nSize := by
  unfold compactSize getSizeOfCompactSize
  split_ifs <;> simp

/-- Writers, readers and size functions agree, and no reader takes a number for another. -/
theorem varInt_compactSize :
    (∀ bits n : Nat, bits = 32 ∨ bits = 64 → n < 2 ^ bits →
      ∃ bytes, writeVarInt bits n = some bytes ∧ bytes.length = size n ∧
        (∀ rest, readVarInt bits (bytes ++ rest) = some (n, rest)) ∧
        ∀ m bytes', m < 2 ^ bits → writeVarInt bits m = some bytes' → m ≠ n → ¬ bytes <+: bytes') ∧
    (∀ n ≤ MAX_SIZE, (compactSize n).length = getSizeOfCompactSize n ∧
      ∀ rest, readCompactSize (compactSize n ++ rest) = some (n, rest)) ∧
    ∀ bytes n rest, readCompactSize bytes = some (n, rest) → bytes = compactSize n ++ rest := by
  refine ⟨?_, ?_, fun bytes n rest read => ((reads_compactSize _ _ _).mp read).2⟩
  · intro bits n width fits
    refine ⟨write n, writeVarInt_eq (varInt_size_le width fits), length_write n,
      fun rest => readVarInt_write fits rest, ?_⟩
    rintro m bytes' below written other ⟨rest, same⟩
    rw [writeVarInt_eq (varInt_size_le width below), Option.some.injEq] at written
    -- the reader finds both numbers at the front of the longer bytes
    have read := readVarInt_write fits rest
    have read' := readVarInt_write below []
    rw [List.append_nil, written, ← same, read, Option.some.injEq, Prod.mk.injEq] at read'
    exact other read'.1.symm
  · intro n allowed
    exact ⟨length_compactSize n, fun rest => (reads_compactSize _ _ _).mpr ⟨allowed, rfl⟩⟩

end Esbcoin
