import Mathlib.Algebra.GroupWithZero.Nat
import Mathlib.Algebra.Ring.Int.Defs
import Mathlib.Data.List.Basic

/-!
# Bytes that can be split again

Numbers of a fixed width, little endian, and lists behind their length. A writer whose bytes can be
told from what follows them is `Splits`; what is written one after the other is then read back in
one way only.
-/

namespace Bytes

variable {α β : Type*}

/-- The `width` lowest bytes of a number, the lowest first. -/
def littleEndian : Nat → Nat → List UInt8
  | 0, _ => []
  | width + 1, n => UInt8.ofNat n :: littleEndian width (n / 256)

@[simp] theorem length_littleEndian (width n : Nat) : (littleEndian width n).length = width := by
  induction width generalizing n with
  | zero => rfl
  | succ width ih => rw [littleEndian, List.length_cons, ih]

theorem littleEndian_injective (width : Nat) {n m : Nat} (hn : n < 256 ^ width) (hm : m < 256 ^ width)
    (same : littleEndian width n = littleEndian width m) : n = m := by
  induction width generalizing n m with
  | zero =>
    rw [Nat.pow_zero] at hn hm
    omega
  | succ width ih =>
    obtain ⟨low, high⟩ := List.cons.inj same
    have low := congrArg UInt8.toNat low
    rw [UInt8.toNat_ofNat', UInt8.toNat_ofNat'] at low
    rw [Nat.pow_succ] at hn hm
    have high := ih (Nat.div_lt_of_lt_mul (by omega)) (Nat.div_lt_of_lt_mul (by omega)) high
    omega

/-- What `write` gives for values that meet `P` can be told from what follows it. -/
def Splits (P : α → Prop) (write : α → List UInt8) : Prop :=
  ∀ a b : α, P a → P b → ∀ rest rest' : List UInt8,
    write a ++ rest = write b ++ rest' → a = b ∧ rest = rest'

theorem splits_of_length {P : α → Prop} {write : α → List UInt8} (width : Nat)
    (length : ∀ a, (write a).length = width)
    (injective : ∀ a b, P a → P b → write a = write b → a = b) : Splits P write := by
  intro a b ha hb rest rest' same
  obtain ⟨first, second⟩ := List.append_inj same ((length a).trans (length b).symm)
  exact ⟨injective a b ha hb first, second⟩

theorem splits_littleEndian (width : Nat) : Splits (· < 256 ^ width) (littleEndian width) :=
  splits_of_length width (length_littleEndian width) fun _ _ => littleEndian_injective width

/-- Two lists of one length, element by element. -/
theorem Splits.flatMap {P : α → Prop} {write : α → List UInt8} (splits : Splits P write)
    {l l' : List α} (length : l.length = l'.length) (hl : ∀ a ∈ l, P a) (hl' : ∀ a ∈ l', P a)
    {rest rest' : List UInt8} (same : l.flatMap write ++ rest = l'.flatMap write ++ rest') :
    l = l' ∧ rest = rest' := by
  induction l generalizing l' with
  | nil =>
    obtain rfl := List.length_eq_zero_iff.mp length.symm
    exact ⟨rfl, same⟩
  | cons a l ih =>
    cases l' with
    | nil => cases length
    | cons b l' =>
      simp only [List.flatMap_cons, List.append_assoc] at same
      obtain ⟨ha, more⟩ := List.forall_mem_cons.mp hl
      obtain ⟨hb, more'⟩ := List.forall_mem_cons.mp hl'
      obtain ⟨rfl, behind⟩ := splits a b ha hb _ _ same
      obtain ⟨rfl, last⟩ := ih (Nat.succ.inj length) more more' behind
      exact ⟨rfl, last⟩

/-- A loop that writes bytes of one length in each turn, in two runs. -/
theorem flatMap_range_inj {n : Nat} {write write' : Nat → List UInt8}
    (length : ∀ i < n, (write i).length = (write' i).length) {rest rest' : List UInt8}
    (same : (List.range n).flatMap write ++ rest = (List.range n).flatMap write' ++ rest') :
    (∀ i < n, write i = write' i) ∧ rest = rest' := by
  induction n generalizing rest rest' with
  | zero => exact ⟨fun i below => by omega, same⟩
  | succ n ih =>
    simp only [List.range_succ, List.flatMap_append, List.flatMap_singleton,
      List.append_assoc] at same
    obtain ⟨first, same⟩ := ih (fun i below => length i (by omega)) same
    obtain ⟨last, same⟩ := List.append_inj same (length n (by omega))
    refine ⟨fun i below => ?_, same⟩
    rcases Nat.lt_succ_iff_lt_or_eq.mp below with before | rfl
    · exact first i before
    · exact last

/-- A loop over the positions of a list writes what its elements give. -/
theorem flatMap_range_eq {l : List α} {write : α → List UInt8} {n : Nat}
    {turn : Nat → List UInt8} (length : n = l.length)
    (turns : ∀ i a, l[i]? = some a → turn i = write a) :
    (List.range n).flatMap turn = l.flatMap write := by
  have same : (List.range n).map turn = l.map write := by
    apply List.ext_getElem
    · simpa using length
    intro i below below'
    have inside : i < l.length := by simpa using below'
    simp only [List.getElem_map, List.getElem_range]
    exact turns i l[i] (List.getElem?_eq_getElem inside)
  rw [List.flatMap_def, List.flatMap_def, same]

/-! ## Reading -/

/-- The number that the bytes spell, lowest first. -/
def ofLittleEndian : List UInt8 → Nat
  | [] => 0
  | byte :: bytes => byte.toNat + 256 * ofLittleEndian bytes

theorem ofLittleEndian_lt (bytes : List UInt8) : ofLittleEndian bytes < 256 ^ bytes.length := by
  induction bytes with
  | nil => exact Nat.one_pos
  | cons byte bytes ih =>
    have small := byte.toNat_lt
    rw [ofLittleEndian, List.length_cons, Nat.pow_succ]
    omega

theorem ofLittleEndian_concat (bytes : List UInt8) (last : UInt8) :
    ofLittleEndian (bytes ++ [last]) = ofLittleEndian bytes + last.toNat * 256 ^ bytes.length := by
  induction bytes with
  | nil => simp [ofLittleEndian]
  | cons byte bytes ih =>
    rw [List.cons_append, ofLittleEndian, ih, ofLittleEndian, List.length_cons, Nat.pow_succ,
      Nat.mul_add, Nat.add_assoc, Nat.mul_comm (256 ^ _) 256, Nat.mul_left_comm]

theorem littleEndian_ofLittleEndian (bytes : List UInt8) :
    littleEndian bytes.length (ofLittleEndian bytes) = bytes := by
  induction bytes with
  | nil => rfl
  | cons byte bytes ih =>
    have small := byte.toNat_lt
    rw [ofLittleEndian, List.length_cons, littleEndian]
    congr 1
    · apply UInt8.toNat_inj.mp
      rw [UInt8.toNat_ofNat']
      omega
    · rw [show (byte.toNat + 256 * ofLittleEndian bytes) / 256 = ofLittleEndian bytes by omega, ih]

theorem ofLittleEndian_littleEndian {width n : Nat} (small : n < 256 ^ width) :
    ofLittleEndian (littleEndian width n) = n := by
  have below := ofLittleEndian_lt (littleEndian width n)
  have again := littleEndian_ofLittleEndian (littleEndian width n)
  rw [length_littleEndian] at below again
  exact littleEndian_injective width below small again

/-- `read` takes off the front what `write` gives for a value that meets `P`, and nothing else. -/
def Reads (P : α → Prop) (write : α → List UInt8) (read : List UInt8 → Option (α × List UInt8)) :
    Prop :=
  ∀ bytes a rest, read bytes = some (a, rest) ↔ P a ∧ bytes = write a ++ rest

/-- The first bytes and the rest, if there are as many. -/
def takeBytes (nSize : Nat) (bytes : List UInt8) : Option (List UInt8 × List UInt8) :=
  if nSize ≤ bytes.length then some (bytes.take nSize, bytes.drop nSize) else none

theorem reads_takeBytes (nSize : Nat) :
    Reads (fun bytes => bytes.length = nSize) id (takeBytes nSize) := by
  intro bytes front rest
  unfold takeBytes
  constructor
  · intro read
    by_cases long : nSize ≤ bytes.length
    · rw [if_pos long, Option.some.injEq, Prod.mk.injEq] at read
      obtain ⟨rfl, rfl⟩ := read
      exact ⟨List.length_take_of_le long, (List.take_append_drop nSize bytes).symm⟩
    · rw [if_neg long] at read
      cases read
  · rintro ⟨rfl, rfl⟩
    rw [if_pos (by simp)]
    simp

/-- What is read is turned into something else. -/
theorem Reads.map {P : α → Prop} {write : α → List UInt8}
    {read : List UInt8 → Option (α × List UInt8)} (reads : Reads P write read)
    {Q : β → Prop} (make : α → β) (fields : β → α) (back : ∀ b, Q b → P (fields b))
    (there : ∀ a, P a → Q (make a)) (make_fields : ∀ b, Q b → make (fields b) = b)
    (fields_make : ∀ a, P a → fields (make a) = a) :
    Reads Q (fun b => write (fields b)) fun bytes =>
      (read bytes).map fun result => (make result.1, result.2) := by
  intro bytes b rest
  rw [Option.map_eq_some_iff]
  constructor
  · rintro ⟨⟨a, rest'⟩, found, same⟩
    obtain ⟨rfl, rfl⟩ := Prod.mk.inj same
    obtain ⟨meets, bytes_eq⟩ := (reads _ _ _).mp found
    refine ⟨there a meets, ?_⟩
    show bytes = write (fields (make a)) ++ rest'
    rw [fields_make a meets, bytes_eq]
  · rintro ⟨meets, rfl⟩
    refine ⟨(fields b, rest), (reads _ _ _).mpr ⟨back b meets, rfl⟩, ?_⟩
    rw [make_fields b meets]

/-- A reader that refuses some values. -/
theorem Reads.filter {P : α → Prop} {write : α → List UInt8}
    {read : List UInt8 → Option (α × List UInt8)} (reads : Reads P write read)
    (allowed : α → Bool) :
    Reads (fun a => P a ∧ allowed a = true) write fun bytes =>
      (read bytes).filter fun result => allowed result.1 := by
  intro bytes a rest
  rw [Option.filter_eq_some_iff, reads bytes a rest]
  exact and_right_comm

/-- What can be read can be told from what follows it. -/
theorem Reads.splits {P : α → Prop} {write : α → List UInt8}
    {read : List UInt8 → Option (α × List UInt8)} (reads : Reads P write read) :
    Splits P write := by
  intro a b ha hb rest rest' same
  have first := (reads _ a rest).mpr ⟨ha, rfl⟩
  have second := (reads _ b rest').mpr ⟨hb, same⟩
  rw [first, Option.some.injEq, Prod.mk.injEq] at second
  exact second

theorem reads_littleEndian (width : Nat) :
    Reads (· < 256 ^ width) (littleEndian width) fun bytes =>
      (takeBytes width bytes).map fun result => (ofLittleEndian result.1, result.2) :=
  (reads_takeBytes width).map ofLittleEndian (littleEndian width)
    (fun n _ => length_littleEndian width n) (fun bytes length => length ▸ ofLittleEndian_lt bytes)
    (fun _ => ofLittleEndian_littleEndian)
    fun bytes length => length ▸ littleEndian_ofLittleEndian bytes

/-! ### Reading to the end of the data -/

variable {σ : Type*}

/-- `while (!bytes.empty())` of a value read and taken in; `false` when a read fails. -/
def whileReads (read : List UInt8 → Option (α × List UInt8)) (step : σ → α → σ) :
    Nat → List UInt8 → σ → Bool × σ
  | 0, bytes, s => (bytes.isEmpty, s)
  | fuel + 1, bytes, s =>
    if bytes.isEmpty then (true, s)
    else match read bytes with
      | none => (false, s)
      | some (a, rest) => whileReads read step fuel rest (step s a)

/-- The bytes are those of the values, with nothing behind them. -/
def Whole (P : α → Prop) (write : α → List UInt8) (bytes : List UInt8) (l : List α) : Prop :=
  (∀ a ∈ l, P a) ∧ bytes = l.flatMap write

/-- Behind the values in front there are bytes that no further value starts with. -/
def BreaksOff (P : α → Prop) (write : α → List UInt8) (bytes : List UInt8) (front : List α) :
    Prop :=
  (∀ a ∈ front, P a) ∧ ∃ bad, bad ≠ [] ∧ bytes = front.flatMap write ++ bad ∧
    ∀ a rest, P a → bad ≠ write a ++ rest

section Loop

variable {P : α → Prop} {write : α → List UInt8} {read : List UInt8 → Option (α × List UInt8)}
  (step : σ → α → σ)

theorem whileReads_flatMap (reads : Reads P write read) (nonempty : ∀ a, P a → write a ≠ [])
    {front : List α} (all : ∀ a ∈ front, P a) (bad : List UInt8) (fuel : Nat)
    (enough : (front.flatMap write ++ bad).length ≤ fuel) (s : σ) :
    ∃ left, bad.length ≤ left ∧ whileReads read step fuel (front.flatMap write ++ bad) s =
      whileReads read step left bad (front.foldl step s) := by
  induction front generalizing fuel s with
  | nil => exact ⟨fuel, enough, rfl⟩
  | cons a front ih =>
    obtain ⟨meets, all⟩ := List.forall_mem_cons.mp all
    have some_byte := List.length_pos_iff.mpr (nonempty a meets)
    simp only [List.flatMap_cons, List.append_assoc, List.length_append] at enough ⊢
    cases fuel with
    | zero => omega
    | succ fuel =>
      obtain ⟨left, room, rest⟩ := ih all fuel (by rw [List.length_append]; omega) (step s a)
      refine ⟨left, room, ?_⟩
      rw [whileReads, if_neg (by simp [nonempty a meets]), (reads _ _ _).mpr ⟨meets, rfl⟩]
      exact rest

theorem whileReads_whole (reads : Reads P write read) (nonempty : ∀ a, P a → write a ≠ [])
    {bytes : List UInt8} {l : List α} (whole : Whole P write bytes l) (s : σ) :
    whileReads read step bytes.length bytes s = (true, l.foldl step s) := by
  obtain ⟨all, rfl⟩ := whole
  obtain ⟨left, -, run⟩ := whileReads_flatMap step reads nonempty all []
    (l.flatMap write).length (by simp) s
  rw [List.append_nil] at run
  rw [run]
  cases left with
  | zero => rfl
  | succ left => rfl

theorem whileReads_breaksOff (reads : Reads P write read) (nonempty : ∀ a, P a → write a ≠ [])
    {bytes : List UInt8} {front : List α} (breaks : BreaksOff P write bytes front) (s : σ) :
    whileReads read step bytes.length bytes s = (false, front.foldl step s) := by
  obtain ⟨all, bad, some_left, rfl, stuck⟩ := breaks
  obtain ⟨left, room, run⟩ := whileReads_flatMap step reads nonempty all bad _
    (Nat.le_refl _) s
  rw [run]
  cases left with
  | zero => exact absurd (List.length_eq_zero_iff.mp (Nat.le_zero.mp room)) some_left
  | succ left =>
    have fails : read bad = none := by
      cases found : read bad with
      | none => rfl
      | some result =>
        obtain ⟨meets, bytes_eq⟩ := (reads bad result.1 result.2).mp found
        exact absurd bytes_eq (stuck _ _ meets)
    rw [whileReads, if_neg (by simpa using some_left), fails]

theorem whole_or_breaksOff (nonempty : ∀ a, P a → write a ≠ []) (bytes : List UInt8) :
    (∃ l, Whole P write bytes l) ∨ ∃ front, BreaksOff P write bytes front := by
  generalize size : bytes.length = n
  induction n using Nat.strongRecOn generalizing bytes with
  | ind n ih =>
    by_cases empty : bytes = []
    · exact Or.inl ⟨[], by simp, empty⟩
    by_cases one : ∃ a rest, P a ∧ bytes = write a ++ rest
    · obtain ⟨a, rest, meets, rfl⟩ := one
      have some_byte := List.length_pos_iff.mpr (nonempty a meets)
      rw [List.length_append] at size
      rcases ih rest.length (by omega) rest rfl with whole | ⟨front, all, bad, left, rfl, stuck⟩
      · obtain ⟨l, all, rfl⟩ := whole
        exact Or.inl ⟨a :: l, List.forall_mem_cons.mpr ⟨meets, all⟩, rfl⟩
      · exact Or.inr ⟨a :: front, List.forall_mem_cons.mpr ⟨meets, all⟩, bad, left,
          (by rw [List.flatMap_cons, List.append_assoc]), stuck⟩
    · refine Or.inr ⟨[], by simp, bytes, empty, rfl, ?_⟩
      intro a rest meets equal
      exact one ⟨a, rest, meets, equal⟩

end Loop

end Bytes
