import Mathlib.Algebra.GroupWithZero.Nat
import Mathlib.Algebra.Ring.Int.Defs
import Mathlib.Data.List.Basic
import Mathlib.Order.Basic

/-!
# Numbers as text

Decimal text with a sign and hexadecimal text of a fixed width. Decimal text can be read back
(`readDecimal_eq_some`), so it determines its number; two numbers one after the other are determined
with the position of the cut only.
-/

namespace Esbcoin

open List

/-- A number as `printf("%d")` writes it. -/
def decimal (n : Int) : List Char :=
  if n < 0 then '-' :: Nat.toDigits 10 n.natAbs else Nat.toDigits 10 n.natAbs

/-- The number a text would be the decimal of. -/
def decimalValue : List Char → Int
  | '-' :: text => -(Nat.ofDigitChars 10 text 0 : Int)
  | text => (Nat.ofDigitChars 10 text 0 : Int)

/-- Read a number; `none` of a text that no number is written as. -/
def readDecimal (text : List Char) : Option Int :=
  if decimal (decimalValue text) = text then some (decimalValue text) else none

theorem decimalValue_decimal (n : Int) : decimalValue (decimal n) = n := by
  unfold decimal
  by_cases negative : n < 0
  · rw [if_pos negative]
    simp only [decimalValue, Nat.ofDigitChars_ten_toDigits]
    omega
  rw [if_neg negative]
  have noSign : ∀ rest, Nat.toDigits 10 n.natAbs ≠ '-' :: rest := by
    intro rest equal
    have member : '-' ∈ Nat.toDigits 10 n.natAbs := by
      rw [equal]
      exact mem_cons_self
    have digit := Nat.isDigit_of_mem_toDigits (by decide) (by decide) member
    revert digit
    decide
  have value : decimalValue (Nat.toDigits 10 n.natAbs) = (n.natAbs : Int) := by
    unfold decimalValue
    split
    · rename_i rest equal
      exact absurd equal (noSign rest)
    · rw [Nat.ofDigitChars_ten_toDigits]
  rw [value]
  omega

variable {n : Int} {α : Type} {first : List α}

theorem readDecimal_eq_some {text : List Char} : readDecimal text = some n ↔ decimal n = text := by
  unfold readDecimal
  constructor
  · intro read
    split at read
    · rename_i written
      rw [← Option.some.inj read, written]
    · cases read
  · rintro rfl
    rw [decimalValue_decimal, if_pos rfl]

theorem decimal_injective : Function.Injective decimal := by
  intro n n' equal
  rw [← decimalValue_decimal n, equal, decimalValue_decimal]

/-- A decimal number within bounds. -/
def readInRange (low high : Int) (text : List Char) : Option Int :=
  (readDecimal text).filter fun n => decide (low ≤ n ∧ n < high)

theorem readInRange_eq_some {low high : Int} {text : List Char} :
    readInRange low high text = some n ↔ decimal n = text ∧ low ≤ n ∧ n < high := by
  unfold readInRange
  rw [Option.filter_eq_some_iff, readDecimal_eq_some, decide_eq_true_eq]

/-- A number as `width` hexadecimal digits. -/
def hexText : Nat → Nat → List Char
  | 0, _ => []
  | width + 1, n => hexText width (n / 16) ++ [Nat.digitChar (n % 16)]

@[simp] theorem hexText_length (width n : Nat) : (hexText width n).length = width := by
  induction width generalizing n with
  | zero => rfl
  | succ width ih => rw [hexText, length_append, ih, length_singleton]

theorem digitChar_injective {d d' : Nat} (small : d < 16) (small' : d' < 16)
    (equal : Nat.digitChar d = Nat.digitChar d') : d = d' := by
  have all : ∀ d d' : Fin 16, Nat.digitChar d = Nat.digitChar d' → d = d' := by decide
  exact congrArg Fin.val (all ⟨d, small⟩ ⟨d', small'⟩ equal)

theorem hexText_injective {width n n' : Nat} (small : n < 16 ^ width) (small' : n' < 16 ^ width)
    (equal : hexText width n = hexText width n') : n = n' := by
  induction width generalizing n n' with
  | zero =>
    rw [Nat.pow_zero] at small small'
    omega
  | succ width ih =>
    rw [Nat.pow_succ] at small small'
    obtain ⟨high, low⟩ := append_inj equal (by simp)
    have high := ih (by omega) (by omega) high
    have low := digitChar_injective (by omega) (by omega) (singleton_inj.mp low)
    omega

/-! ## Where a part ends -/

/-- A digit or the sign. -/
def isDecimalChar (c : Char) : Bool := c.isDigit || c == '-'

theorem isDecimalChar_of_mem {c : Char} (member : c ∈ decimal n) : isDecimalChar c = true := by
  unfold decimal at member
  unfold isDecimalChar
  rw [Bool.or_eq_true, beq_iff_eq]
  by_cases negative : n < 0
  · rw [if_pos negative] at member
    rcases mem_cons.mp member with sign | digit
    · exact Or.inr sign
    · exact Or.inl (Nat.isDigit_of_mem_toDigits (by decide) (by decide) digit)
  · rw [if_neg negative] at member
    exact Or.inl (Nat.isDigit_of_mem_toDigits (by decide) (by decide) member)

/-- A part of characters of one kind ends at the first character of another kind. -/
theorem takeWhile_of_head {p : α → Bool} {rest : List α} (inside : ∀ c ∈ first, p c = true)
    (behind : ∀ c ∈ rest.head?, p c = false) : (first ++ rest).takeWhile p = first := by
  rw [takeWhile_append_of_pos inside]
  cases rest with
  | nil => rw [takeWhile_nil, append_nil]
  | cons c rest =>
    have other : p c = false := behind c rfl
    rw [takeWhile_cons, other, if_neg Bool.false_ne_true, append_nil]

/-- A text is cut behind the characters of one kind. -/
theorem cut_by_kind {p : α → Bool} {first' rest rest' : List α} (inside : ∀ c ∈ first, p c = true)
    (inside' : ∀ c ∈ first', p c = true) (behind : ∀ c ∈ rest.head?, p c = false)
    (behind' : ∀ c ∈ rest'.head?, p c = false) (equal : first ++ rest = first' ++ rest') :
    first = first' ∧ rest = rest' := by
  have same : first = first' := by
    rw [← takeWhile_of_head inside behind, equal, takeWhile_of_head inside' behind']
  subst same
  exact ⟨rfl, append_cancel_left equal⟩

/-- A text is cut at the first of its separators. -/
theorem cut_at {c : Char} {first first' rest rest' : List Char} (inside : c ∉ first)
    (inside' : c ∉ first') (equal : first ++ c :: rest = first' ++ c :: rest') :
    first = first' ∧ rest = rest' := by
  have others : ∀ text : List Char, c ∉ text → ∀ d ∈ text, (d != c) = true := by
    intro text absent d member
    rw [bne_iff_ne]
    rintro rfl
    exact absent member
  have separator : ∀ text : List Char, ∀ d ∈ (c :: text).head?, (d != c) = false := by
    intro text d head
    obtain rfl : c = d := Option.mem_some_iff.mp head
    simp
  obtain ⟨parts, tails⟩ := cut_by_kind (others first inside) (others first' inside')
    (separator rest) (separator rest') equal
  exact ⟨parts, (List.cons.inj tails).2⟩

/-! ## Texts of three parts -/

/-- The parts of a text between the cuts `i` and `j`. -/
structure Parts {α : Type} (text : List α) (i j : Nat) (first second third : List α) : Prop where
  first : text.take i = first
  second : (text.take j).drop i = second
  third : text.drop j = third

/-- A text put together of three parts is cut at their lengths. -/
theorem parts_append (first second third : List α) :
    Parts (first ++ second ++ third) first.length (first.length + second.length) first second
      third := by
  have cut : first.length + second.length = (first ++ second).length := by
    rw [length_append]
  constructor
  · rw [append_assoc, take_left]
  · rw [cut, take_left, drop_left]
  · rw [cut, drop_left]

/-- The parts make up the text. -/
theorem Parts.append {text second third : List α} {i j : Nat} (order : i ≤ j)
    (parts : Parts text i j first second third) : first ++ second ++ third = text := by
  rw [← parts.first, ← parts.second, ← parts.third]
  have inner : text.take i = (text.take j).take i := by
    rw [take_take, Nat.min_eq_left order]
  rw [inner, take_append_drop, take_append_drop]

/-- Cuts of a text are where the parts end, if something is left behind the second. -/
theorem Parts.cuts {text second third : List α} {i j : Nat} (order : i ≤ j)
    (inside : j ≤ text.length) (parts : Parts text i j first second third) :
    i = first.length ∧ j = first.length + second.length := by
  rw [← parts.first, ← parts.second]
  simp only [length_take, length_drop]
  omega

end Esbcoin
