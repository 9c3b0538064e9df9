import Esbcoin.Lib.DecimalCode
import Esbcoin.Chain.LoadBlockIndex
import Esbcoin.Validation.CheckBlock
import Mathlib.Data.Set.Function

/-!
# Compressed amounts

Rendering of `CTxOutCompressor::CompressAmount` and `DecompressAmount`
(`src/compressor.cpp:128-180`), in 64 bits. Where no product leaves 64 bits they are the numbering
of `DecimalCode` with at most nine zeros.
-/

namespace Esbcoin

open DecimalCode

/-- The loop of `CompressAmount`: `n`, and by how much `e` has grown; it stops at nine. -/
def divideTens : Nat → UInt64 → UInt64 × Nat
  | 0, n => (n, 0)
  | left + 1, n =>
    if n % 10 = 0 then
      let (n, e) := divideTens left (n / 10)
      (n, e + 1)
    else (n, 0)

/-- `CTxOutCompressor::CompressAmount` (`compressor.cpp:137-154`), whose assertion on `d` always
holds (`compressed_digit`). -/
def compressAmount (n : UInt64) : UInt64 :=
  if n = 0 then 0
  else
    let (n, e) := divideTens 9 n
    if e < 9 then
      let d := n % 10
      1 + (n / 10 * 9 + d - 1) * 10 + UInt64.ofNat e
    else 1 + (n - 1) * 10 + 9

/-- The loop of `DecompressAmount`. -/
def multiplyTens : Nat → UInt64 → UInt64
  | 0, n => n
  | e + 1, n => multiplyTens e (n * 10)

/-- `CTxOutCompressor::DecompressAmount` (`compressor.cpp:156-180`). -/
def decompressAmount (x : UInt64) : UInt64 :=
  if x = 0 then 0
  else
    let e := ((x - 1) % 10).toNat
    let x := (x - 1) / 10
    multiplyTens e (if e < 9 then x / 9 * 10 + (x % 9 + 1) else x + 1)

theorem divideTens_eq (left : Nat) (n : UInt64) :
    ((divideTens left n).1.toNat, (divideTens left n).2) = strip left n.toNat := by
  induction left generalizing n with
  | zero => rfl
  | succ left ih =>
    have tens : n % 10 = 0 ↔ n.toNat % 10 = 0 := by
      rw [← UInt64.toNat_inj, UInt64.toNat_mod]
      rfl
    have rest := ih (n / 10)
    rw [UInt64.toNat_div] at rest
    rw [divideTens, strip]
    by_cases zero : n.toNat % 10 = 0
    · rw [if_pos zero, if_pos (tens.mpr zero)]
      rw [show n.toNat / 10 = n.toNat / (10 : UInt64).toNat from rfl, ← rest]
    · rw [if_neg zero, if_neg fun zero' => zero (tens.mp zero')]

/-- The assertion of `CompressAmount`. -/
theorem compressed_digit {n : UInt64} (some : n ≠ 0) (below : (divideTens 9 n).2 < 9) :
    1 ≤ (divideTens 9 n).1 % 10 ∧ (divideTens 9 n).1 % 10 ≤ 9 := by
  have positive : 0 < n.toNat := Nat.pos_of_ne_zero fun zero => some (UInt64.toNat_inj.mp zero)
  have digit := (strip_spec 9 positive).1.last
  rw [← divideTens_eq] at digit
  have last := digit below
  rw [UInt64.le_iff_toNat_le, UInt64.le_iff_toNat_le, UInt64.toNat_mod]
  show 1 ≤ (divideTens 9 n).1.toNat % 10 ∧ (divideTens 9 n).1.toNat % 10 ≤ 9
  omega

variable {n : UInt64} {params : CChainParams}

/-- A code that fits is computed without wrapping. -/
theorem compressAmount_toNat (fits : encode 9 n.toNat < 2 ^ 64) :
    (compressAmount n).toNat = encode 9 n.toNat := by
  unfold compressAmount
  by_cases zero : n = 0
  · subst zero
    rfl
  have some : n.toNat ≠ 0 := fun same => zero (UInt64.toNat_inj.mp same)
  have digit := @compressed_digit n zero
  obtain ⟨stripped, -⟩ := strip_spec 9 (Nat.pos_of_ne_zero some)
  rw [encode, if_neg some] at fits ⊢
  rw [if_neg zero]
  rw [← divideTens_eq] at fits stripped ⊢
  dsimp only at fits stripped ⊢
  have positive := stripped.positive
  generalize (divideTens 9 n).1 = m at *
  generalize (divideTens 9 n).2 = e at *
  by_cases below : e < 9
  · obtain ⟨least, -⟩ := digit below
    rw [UInt64.le_iff_toNat_le, UInt64.toNat_mod] at least
    rw [if_pos below] at fits ⊢
    rw [if_pos below]
    simp only [UInt64.toNat_add, UInt64.toNat_mul, UInt64.toNat_sub, UInt64.toNat_div,
      UInt64.toNat_mod, UInt64.toNat_ofNat', UInt64.reduceToNat]
    omega
  · rw [if_neg below] at fits ⊢
    rw [if_neg below]
    simp only [UInt64.toNat_add, UInt64.toNat_mul, UInt64.toNat_sub, UInt64.reduceToNat]
    omega

theorem multiplyTens_toNat {e : Nat} (fits : n.toNat * 10 ^ e < 2 ^ 64) :
    (multiplyTens e n).toNat = n.toNat * 10 ^ e := by
  induction e generalizing n with
  | zero => exact (Nat.mul_one _).symm
  | succ e ih =>
    have power : 0 < 10 ^ e := Nat.pow_pos (by omega)
    have product : n.toNat * 10 ^ (e + 1) = n.toNat * 10 * 10 ^ e := by
      rw [Nat.pow_succ, Nat.mul_comm (10 ^ e), Nat.mul_assoc]
    have small : n.toNat * 10 < 2 ^ 64 := by
      have := Nat.le_mul_of_pos_right (n.toNat * 10) power
      omega
    have step : (n * 10).toNat = n.toNat * 10 := by
      rw [UInt64.toNat_mul]
      exact Nat.mod_eq_of_lt small
    rw [multiplyTens, ih (by rw [step, ← product]; exact fits), step, product]

/-- A number that fits is computed without wrapping. -/
theorem decompressAmount_toNat {x : UInt64} (fits : decode 9 x.toNat < 2 ^ 64) :
    (decompressAmount x).toNat = decode 9 x.toNat := by
  unfold decompressAmount
  by_cases zero : x = 0
  · subst zero
    rfl
  have some : x.toNat ≠ 0 := fun same => zero (UInt64.toNat_inj.mp same)
  have bound := x.toNat_lt
  have less : (x - 1).toNat = x.toNat - 1 := by
    simp only [UInt64.toNat_sub, UInt64.reduceToNat]
    omega
  rw [decode, if_neg some] at fits ⊢
  rw [if_neg zero]
  simp only [UInt64.toNat_mod, UInt64.reduceToNat, less]
  generalize exponent : (x.toNat - 1) % 10 = e at fits ⊢
  have mantissa : (if e < 9 then (x - 1) / 10 / 9 * 10 + ((x - 1) / 10 % 9 + 1)
      else (x - 1) / 10 + 1).toNat =
      if e < 9 then (x.toNat - 1) / 10 / 9 * 10 + ((x.toNat - 1) / 10 % 9 + 1)
      else (x.toNat - 1) / 10 + 1 := by
    split
    · simp only [UInt64.toNat_add, UInt64.toNat_mul, UInt64.toNat_div, UInt64.toNat_mod,
        UInt64.reduceToNat, less]
      omega
    · simp only [UInt64.toNat_add, UInt64.toNat_div, UInt64.reduceToNat, less]
      omega
  rw [multiplyTens_toNat (by rw [mantissa]; exact fits), mantissa]

/-- Amounts of the money range have 17 digits at most. -/
theorem moneyRange_le (network : NetworkParams params) {n : Nat}
    (inRange : moneyRange params n = true) : n ≤ 10 ^ 17 := by
  have most : params.maxMoneyOut ≤ 10 ^ 17 := by
    cases network with
    | main => decide
    | testnet => decide
    | regtest hashGenesisBlock =>
      show testNetParams.maxMoneyOut ≤ 10 ^ 17
      decide
    | unittest => decide
  simp only [moneyRange, Bool.and_eq_true, decide_eq_true_eq] at inRange
  omega

/-- The codes that decode, without a wrap, to an amount of the money range. -/
def canonicalCodes (params : CChainParams) : Set UInt64 :=
  {x | moneyRange params (decode 9 x.toNat : Nat) = true}

/-- An amount of the money range is compressed without wrapping and its code decodes to it. -/
theorem decompress_compress (network : NetworkParams params)
    (inRange : moneyRange params n.toNat = true) :
    (compressAmount n).toNat = encode 9 n.toNat ∧
      (decompressAmount (compressAmount n)).toNat = n.toNat := by
  have most := moneyRange_le network inRange
  have code := encode_le 9 n.toNat
  have compressed := compressAmount_toNat (n := n) (by omega)
  have decoded : decode 9 (compressAmount n).toNat = n.toNat := by
    rw [compressed, decode_encode]
  exact ⟨compressed, (decompressAmount_toNat (by omega)).trans decoded⟩

theorem compress_decompress (network : NetworkParams params) {x : UInt64}
    (canonical : x ∈ canonicalCodes params) :
    (decompressAmount x).toNat = decode 9 x.toNat ∧
      (compressAmount (decompressAmount x)).toNat = x.toNat := by
  have most := moneyRange_le network canonical
  have decoded := decompressAmount_toNat (x := x) (by omega)
  have code : encode 9 (decompressAmount x).toNat = x.toNat := by
    rw [decoded, encode_decode]
  exact ⟨decoded, (compressAmount_toNat (by rw [code]; exact x.toNat_lt)).trans code⟩

/-- On each network, an amount of the money range has a code computed without wrapping, from which
it comes back; a canonical code comes back from its amount; the two sets correspond. -/
theorem compressAmount_bijective {params : CChainParams} (network : NetworkParams params) :
    (∀ n : UInt64, moneyRange params n.toNat = true →
      (compressAmount n).toNat = encode 9 n.toNat ∧
        (decompressAmount (compressAmount n)).toNat =
          decode 9 (compressAmount n).toNat ∧
        decompressAmount (compressAmount n) = n) ∧
      (∀ x ∈ canonicalCodes params,
        (decompressAmount x).toNat = decode 9 x.toNat ∧
          compressAmount (decompressAmount x) = x) ∧
      Set.BijOn compressAmount {n | moneyRange params n.toNat = true} (canonicalCodes params) := by
  have back : ∀ n : UInt64, moneyRange params n.toNat = true →
      decompressAmount (compressAmount n) = n :=
    fun n inRange => UInt64.toNat_inj.mp (decompress_compress network inRange).2
  have forth : ∀ x ∈ canonicalCodes params, compressAmount (decompressAmount x) = x :=
    fun x canonical => UInt64.toNat_inj.mp (compress_decompress network canonical).2
  refine ⟨fun n inRange => ?_, fun x canonical =>
    ⟨(compress_decompress network canonical).1, forth x canonical⟩, ?maps, ?injective, ?surjective⟩
  · obtain ⟨compressed, same⟩ := decompress_compress network inRange
    refine ⟨compressed, ?_, back n inRange⟩
    rw [same, compressed, decode_encode]
  case maps =>
    intro n inRange
    have compressed := (decompress_compress network inRange).1
    show moneyRange params (decode 9 (compressAmount n).toNat : Nat) = true
    rw [compressed, decode_encode]
    exact inRange
  case injective =>
    intro n inRange m inRange' same
    rw [← back n inRange, ← back m inRange', same]
  case surjective =>
    intro x canonical
    refine ⟨decompressAmount x, ?_, forth x canonical⟩
    show moneyRange params (decompressAmount x).toNat = true
    rw [(compress_decompress network canonical).1]
    exact canonical

theorem compressAmount_bijective_main :
    NetworkParams mainParams ∧
      Set.BijOn compressAmount {n | moneyRange mainParams n.toNat = true}
        (canonicalCodes mainParams) :=
  ⟨.main, (compressAmount_bijective .main).2.2⟩

/-- A code that wraps to an amount of the money range: 2^55 times 10^9 is 0 in 64 bits. -/
theorem decompressAmount_wraps :
    ¬ ∀ x : UInt64, moneyRange mainParams (decompressAmount x).toNat = true →
      compressAmount (decompressAmount x) = x := by
  intro same
  have zero : decompressAmount 360287970189639680 = 0 := by decide
  have back := same 360287970189639680 (by rw [zero]; decide)
  rw [zero] at back
  exact absurd back (by decide)

end Esbcoin
