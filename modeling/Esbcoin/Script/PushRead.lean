import Esbcoin.Script.Opcodes

/-!
# Pushes read back

`CScript::GetOp2` (`src/script/script.h:476-527`) over positions of the script.
-/

namespace Esbcoin.CScript

open Bytes

/-- Copy so many bytes from a position on; `none` reads past the end of the script. -/
def bytesAt (script : CScript) (pc n : Nat) : Option (List UInt8) :=
  if pc + n ≤ script.length then some ((script.drop pc).take n) else none

/-- How many bytes hold the size of a push (`script/script.h:492-517`). -/
def sizeWidth (opcode : UInt8) : Nat :=
  if opcode = OP_PUSHDATA1 then 1
  else if opcode = OP_PUSHDATA2 then 2
  else if opcode = OP_PUSHDATA4 then 4
  else 0

/-- `nSize`, where these bytes hold it. -/
def operandSize (opcode : UInt8) (size : List UInt8) : Nat :=
  if opcode < OP_PUSHDATA1 then opcode.toNat else ofLittleEndian size

/-- `GetOp2` (`script/script.h:476-527`): where `pc` ends, and the opcode and the operand if true is
returned; `none` reads past the end of the script. -/
def getOp2 (script : CScript) (pc : Nat) : Option (Nat × Option (UInt8 × List UInt8)) :=
  if script.length ≤ pc then some (pc, none)
  else
    script[pc]?.bind fun opcode =>
      let pc := pc + 1
      if opcode ≤ OP_PUSHDATA4 then
        if script.length - pc < sizeWidth opcode then some (pc, none)
        else
          (script.bytesAt pc (sizeWidth opcode)).bind fun size =>
            let pc := pc + sizeWidth opcode
            let nSize := operandSize opcode size
            -- what is left is compared as an `unsigned int`
            if (script.length - pc) % 2 ^ 32 < nSize then some (pc, none)
            else (script.bytesAt pc nSize).map fun vch => (pc + nSize, some (opcode, vch))
      else some (pc, some (opcode, []))

/-- An opcode, its size and what it pushes. -/
def IsOp (opcode : UInt8) (vch piece : List UInt8) : Prop :=
  ∃ size, piece = opcode :: (size ++ vch) ∧ size.length = sizeWidth opcode ∧
    vch.length = operandSize opcode size

/-- The loop `while (pc < end())` over `GetOp` that reads these operations and does not fail. -/
inductive ParsesFrom (script : CScript) : Nat → List (UInt8 × List UInt8) → Prop where
  | done {pc : Nat} (atEnd : script.length ≤ pc) : ParsesFrom script pc []
  | op {pc pc' : Nat} {op : UInt8 × List UInt8} {ops : List (UInt8 × List UInt8)}
      (read : script.getOp2 pc = some (pc', some op)) (more : ParsesFrom script pc' ops) :
      ParsesFrom script pc (op :: ops)

/-- What an operation pushes on the stack (`script/interpreter.cpp:296-327`). -/
def pushed (opcode : UInt8) (vch : List UInt8) : Option (List UInt8) :=
  if opcode ≤ OP_PUSHDATA4 then some vch
  else if opcode = OP_1NEGATE ∨ (OP_1 ≤ opcode ∧ opcode ≤ OP_16) then
    some (CScriptNum.serialize ((opcode.toNat : Int) - 0x50))
  else none

/-- The script is one operation with this opcode that pushes the data. -/
def Pushes (script : CScript) (opcode : UInt8) (data : List UInt8) : Prop :=
  ∃ vch, script.getOp2 0 = some (script.length, some (opcode, vch)) ∧ pushed opcode vch = some data

section Read

variable {script : CScript} {opcode : UInt8} {vch piece data : List UInt8} {pc : Nat}

theorem sizeWidth_eq_zero (other : opcode < OP_PUSHDATA1 ∨ ¬ opcode ≤ OP_PUSHDATA4) :
    sizeWidth opcode = 0 := by
  unfold sizeWidth
  split_ifs with one two four
  · subst one
    exact absurd other (by decide)
  · subst two
    exact absurd other (by decide)
  · subst four
    exact absurd other (by decide)
  · rfl

theorem isOp_plain_iff (plain : ¬ opcode ≤ OP_PUSHDATA4) :
    IsOp opcode vch piece ↔ vch = [] ∧ piece = [opcode] := by
  have above : ¬ opcode < OP_PUSHDATA1 := fun below => plain (UInt8.le_of_lt
    (UInt8.lt_trans below (show OP_PUSHDATA1 < OP_PUSHDATA4 by decide)))
  constructor
  · rintro ⟨size, rfl, width, operand⟩
    rw [sizeWidth_eq_zero (.inr plain), List.length_eq_zero_iff] at width
    rw [width, operandSize, if_neg above, ofLittleEndian, List.length_eq_zero_iff] at operand
    exact ⟨operand, by rw [width, operand]; rfl⟩
  · rintro ⟨rfl, rfl⟩
    exact ⟨[], rfl, (sizeWidth_eq_zero (.inr plain)).symm, by rw [operandSize, if_neg above]; rfl⟩

theorem bytesAt_spec {n : Nat} (inside : pc + n ≤ script.length) :
    ∃ bytes, script.bytesAt pc n = some bytes ∧ bytes.length = n ∧
      script.drop pc = bytes ++ script.drop (pc + n) := by
  refine ⟨_, if_pos inside, List.length_take_of_le ?_, ?_⟩
  · rw [List.length_drop]
    omega
  · rw [← List.drop_drop, List.take_append_drop]

theorem bytesAt_append (before after : List UInt8) {bytes : List UInt8} {n : Nat}
    (whole : script = before ++ (bytes ++ after)) (position : pc = before.length)
    (length : n = bytes.length) : script.bytesAt pc n = some bytes := by
  subst whole position length
  rw [bytesAt, if_pos (by simp only [List.length_append]; omega), List.drop_left, List.take_left]

/-- A read stays within the script and takes the bytes of an operation off. -/
theorem getOp2_spec (script : CScript) (inside : pc ≤ script.length) :
    ∃ pc' found, script.getOp2 pc = some (pc', found) ∧ pc ≤ pc' ∧ pc' ≤ script.length ∧
      ∀ opcode vch, found = some (opcode, vch) →
        ∃ piece, IsOp opcode vch piece ∧ pc' = pc + piece.length ∧
          script.drop pc = piece ++ script.drop pc' := by
  unfold getOp2
  by_cases atEnd : script.length ≤ pc
  · rw [if_pos atEnd]
    exact ⟨_, _, rfl, Nat.le_refl _, inside, fun _ _ none => by cases none⟩
  have below : pc < script.length := Nat.not_le.mp atEnd
  have first : script.drop pc = script[pc] :: script.drop (pc + 1) := List.drop_eq_getElem_cons below
  rw [if_neg atEnd, List.getElem?_eq_getElem below, Option.bind_some]
  generalize script[pc] = opcode at first
  dsimp only
  split
  · split
    · exact ⟨_, _, rfl, by omega, by omega, fun _ _ none => by cases none⟩
    obtain ⟨size, copied, width, behind⟩ := @bytesAt_spec script (pc + 1) (sizeWidth opcode) (by omega)
    rw [copied, Option.bind_some]
    split
    · exact ⟨_, _, rfl, by omega, by omega, fun _ _ none => by cases none⟩
    obtain ⟨vch, copied', operand, behind'⟩ :=
      @bytesAt_spec script (pc + 1 + sizeWidth opcode) (operandSize opcode size) (by omega)
    rw [copied', Option.map_some]
    refine ⟨_, _, rfl, by omega, by omega, ?_⟩
    rintro opcode' vch' same
    obtain ⟨rfl, rfl⟩ := Prod.mk.inj (Option.some.inj same)
    refine ⟨_, ⟨size, rfl, width, operand⟩, ?_, ?_⟩
    · rw [List.length_cons, List.length_append, width, operand]
      omega
    · rw [first, behind, behind', List.cons_append, List.append_assoc]
  · rename_i plain
    refine ⟨_, _, rfl, by omega, by omega, ?_⟩
    rintro opcode' vch' same
    obtain ⟨rfl, rfl⟩ := Prod.mk.inj (Option.some.inj same)
    exact ⟨_, (isOp_plain_iff plain).mpr ⟨rfl, rfl⟩, rfl, first⟩

/-- The size of a push is read byte by byte. -/
theorem pushSize_eq (push : opcode ≤ OP_PUSHDATA4) (pc : CScript) :
    pushSize opcode pc = if pc.length < sizeWidth opcode then none
      else some (operandSize opcode (pc.take (sizeWidth opcode)), pc.drop (sizeWidth opcode)) := by
  unfold pushSize
  by_cases below : opcode < OP_PUSHDATA1
  · rw [if_pos below, sizeWidth_eq_zero (.inl below), if_neg (Nat.not_lt_zero _), operandSize,
      if_pos below]
    rfl
  have sizes : ∀ size, operandSize opcode size = ofLittleEndian size := fun size => if_neg below
  by_cases one : opcode = OP_PUSHDATA1
  · subst one
    rcases pc with _ | ⟨b0, rest⟩ <;> rfl
  by_cases two : opcode = OP_PUSHDATA2
  · subst two
    rcases pc with _ | ⟨b0, _ | ⟨b1, rest⟩⟩ <;> rfl
  obtain rfl : opcode = OP_PUSHDATA4 := by
    rw [← UInt8.toNat_inj] at one two ⊢
    change ¬ opcode.toNat < 76 at below
    change opcode.toNat ≤ 78 at push
    change ¬ opcode.toNat = 76 at one
    change ¬ opcode.toNat = 77 at two
    show opcode.toNat = 78
    omega
  rcases pc with _ | ⟨b0, _ | ⟨b1, _ | ⟨b2, _ | ⟨b3, rest⟩⟩⟩⟩ <;> rfl

/-- Over a script that fits 32 bits, `GetOp2` ends where `getOp` ends on what is left, and reads what
`readOp` reads. -/
theorem getOp2_eq (short : script.length < 2 ^ 32) (inside : pc ≤ script.length) :
    script.getOp2 pc = some (script.length - (getOp (script.drop pc)).2.length,
      (readOp (script.drop pc)).map fun (opcode, vch, _) => (opcode, vch)) := by
  unfold getOp2
  by_cases atEnd : script.length ≤ pc
  · rw [if_pos atEnd, List.drop_eq_nil_of_le atEnd]
    exact congrArg (fun pc => some (pc, none)) (Nat.le_antisymm inside atEnd)
  have below : pc < script.length := Nat.not_le.mp atEnd
  rw [if_neg atEnd, List.getElem?_eq_getElem below, Option.bind_some]
  rw [List.drop_eq_getElem_cons below]
  generalize script[pc] = opcode
  have behind : (script.drop (pc + 1)).length = script.length - (pc + 1) := List.length_drop
  simp only [getOp, readOp]
  by_cases push : opcode ≤ OP_PUSHDATA4
  · simp only [if_pos push, pushSize_eq push, behind]
    by_cases cut : script.length - (pc + 1) < sizeWidth opcode
    · simp only [if_pos cut, behind, Option.map_none]
      congr 2
      omega
    have here : pc + 1 + sizeWidth opcode ≤ script.length := by omega
    simp only [if_neg cut, bytesAt, if_pos here, Option.bind_some, List.drop_drop, List.length_drop]
    rw [Nat.mod_eq_of_lt (by omega)]
    split
    · rw [List.length_drop, Option.map_none]
      congr 2
      omega
    rename_i enough
    rw [if_pos (by omega), Option.map_some, Option.map_some, List.length_drop]
    congr 2
    omega
  · simp only [if_neg push, behind, Option.map_some]
    congr 2
    omega

theorem operandSize_lt {size : List UInt8} (width : size.length = sizeWidth opcode) :
    operandSize opcode size < 2 ^ 32 := by
  have byte := opcode.toNat_lt
  have bound := ofLittleEndian_lt size
  have few : size.length ≤ 4 := by
    rw [width, sizeWidth]
    split_ifs <;> omega
  have power : 256 ^ size.length ≤ 256 ^ 4 := Nat.pow_le_pow_right (by decide) few
  rw [operandSize]
  split <;> omega

/-- An operation at the end of a script is read. -/
theorem getOp2_of_isOp (before : List UInt8) (isOp : IsOp opcode vch piece) :
    getOp2 (before ++ piece) before.length = some ((before ++ piece).length, some (opcode, vch)) := by
  by_cases plain : opcode ≤ OP_PUSHDATA4
  · obtain ⟨size, rfl, width, operand⟩ := isOp
    have small := operandSize_lt width
    have length : (before ++ opcode :: (size ++ vch)).length =
        before.length + 1 + sizeWidth opcode + vch.length := by
      simp only [List.length_append, List.length_cons, ← width]
      omega
    rw [getOp2, if_neg (by omega), List.getElem?_append_right (Nat.le_refl _), Nat.sub_self,
      List.getElem?_cons_zero, Option.bind_some]
    dsimp only
    rw [if_pos plain, if_neg (by omega), bytesAt_append (before ++ [opcode]) vch (by simp)
      (by simp) width.symm, Option.bind_some]
    rw [length, ← operand, Nat.add_sub_cancel_left, Nat.mod_eq_of_lt (by omega), if_neg (by omega),
      bytesAt_append (before ++ [opcode] ++ size) [] (by simp) (by simp [width]; omega) rfl]
    rfl
  · obtain ⟨rfl, rfl⟩ := (isOp_plain_iff plain).mp isOp
    rw [getOp2, if_neg (by simp), List.getElem?_append_right (Nat.le_refl _), Nat.sub_self,
      List.getElem?_cons_zero, Option.bind_some]
    rw [if_neg plain, List.length_append]
    rfl

/-- A script that can be read is the sequence of its operations. -/
theorem ParsesFrom.pieces {ops : List (UInt8 × List UInt8)} (parses : ParsesFrom script pc ops)
    (inside : pc ≤ script.length) :
    ∃ pieces, script.drop pc = pieces.flatten ∧
      List.Forall₂ (fun piece op => getOp2 piece 0 = some (piece.length, some op)) pieces ops := by
  induction parses with
  | done atEnd => exact ⟨[], by rw [List.drop_of_length_le atEnd]; rfl, .nil⟩
  | @op pc pc' op ops read more ih =>
    obtain ⟨after, found, read', -, within, piece⟩ := getOp2_spec script inside
    rw [read, Option.some.injEq, Prod.mk.injEq] at read'
    obtain ⟨rfl, rfl⟩ := read'
    obtain ⟨piece, isOp, -, behind⟩ := piece op.1 op.2 rfl
    obtain ⟨pieces, rest, all⟩ := ih within
    exact ⟨piece :: pieces, by rw [behind, rest]; rfl, .cons (getOp2_of_isOp [] isOp) all⟩

end Read

/-! ## Pushes -/

/-- The opcode of the number that the data is, from -1 and 1 to 16. -/
def constantOf : List UInt8 → Option Nat
  | [byte] =>
    if 1 ≤ byte.toNat ∧ byte.toNat ≤ 16 then some (byte.toNat + 80)
    else if byte.toNat = 129 then some 79
    else none
  | _ => none

/-- The number of bytes of the shortest push. -/
def leastPush (data : List UInt8) : Nat :=
  if (constantOf data).isSome then 1
  else if data.length ≤ 75 then data.length + 1
  else if data.length ≤ 255 then data.length + 2
  else if data.length ≤ 65535 then data.length + 3
  else data.length + 5

section Pushes

variable {script : CScript} {opcode : UInt8} {data : List UInt8}

/-- Data is pushed behind its length, by the first of four opcodes that holds it. -/
theorem isOp_pushData (small : data.length < 2 ^ 32) :
    ∃ opcode, opcode ≤ OP_PUSHDATA4 ∧ IsOp opcode data (pushData data) := by
  have one : OP_PUSHDATA1.toNat = 76 := rfl
  unfold pushData
  split
  · rename_i direct
    have byte : (UInt8.ofNat data.length).toNat = data.length := by
      rw [UInt8.toNat_ofNat']
      omega
    have below : UInt8.ofNat data.length < OP_PUSHDATA1 := by
      rw [UInt8.lt_iff_toNat_lt]
      omega
    refine ⟨_, ?_, [], rfl, (sizeWidth_eq_zero (.inl below)).symm, ?_⟩
    · exact UInt8.le_of_lt (UInt8.lt_trans below (show OP_PUSHDATA1 < OP_PUSHDATA4 by decide))
    · rw [operandSize, if_pos below, byte]
  split
  · refine ⟨OP_PUSHDATA1, by decide, [UInt8.ofNat data.length], rfl, rfl, ?_⟩
    show data.length = (UInt8.ofNat data.length).toNat + 256 * 0
    rw [UInt8.toNat_ofNat']
    omega
  split
  · exact ⟨OP_PUSHDATA2, by decide, littleEndian 2 data.length, rfl, length_littleEndian _ _,
      (ofLittleEndian_littleEndian (by omega)).symm⟩
  · exact ⟨OP_PUSHDATA4, by decide, littleEndian 4 data.length, rfl, length_littleEndian _ _,
      (ofLittleEndian_littleEndian small).symm⟩

theorem constantOf_serialize : ∀ n < 97, n = 79 ∨ 81 ≤ n →
    constantOf (CScriptNum.serialize ((n : Nat) - 80)) = some n := by
  decide

theorem serialize_constant : ∀ n < 17, 1 ≤ n →
    CScriptNum.serialize ((n + 80 : Nat) - 80) = [UInt8.ofNat n] := by
  decide

theorem constantOf_eq_some {n : Nat} (constant : constantOf data = some n) :
    (n = 79 ∨ 81 ≤ n) ∧ n ≤ 96 ∧ data.length = 1 ∧ CScriptNum.serialize (n - 80) = data := by
  match data, constant with
  | [byte], constant =>
    rw [constantOf] at constant
    split at constant
    · rename_i small
      obtain rfl := Option.some.inj constant
      refine ⟨by omega, by omega, rfl, ?_⟩
      rw [serialize_constant byte.toNat (by omega) small.1, UInt8.ofNat_toNat]
    split at constant
    · rename_i minus
      obtain rfl := Option.some.inj constant
      obtain rfl : byte = 129 := UInt8.toNat_inj.mp minus
      decide
    · cases constant

/-- How data can be pushed: behind its length, or by the opcode of a number. -/
theorem pushes_iff :
    Pushes script opcode data ↔
      (opcode ≤ OP_PUSHDATA4 ∧ IsOp opcode data script) ∨
        script = [opcode] ∧ constantOf data = some opcode.toNat := by
  have whole : ∀ vch, script.getOp2 0 = some (script.length, some (opcode, vch)) ↔
      IsOp opcode vch script := by
    intro vch
    constructor
    · intro read
      obtain ⟨pc', found, read', -, -, piece⟩ := getOp2_spec script (Nat.zero_le _)
      rw [read, Option.some.injEq, Prod.mk.injEq] at read'
      obtain ⟨rfl, rfl⟩ := read'
      obtain ⟨piece, isOp, -, behind⟩ := piece opcode vch rfl
      rw [List.drop_zero, List.drop_length, List.append_nil] at behind
      exact behind ▸ isOp
    · exact getOp2_of_isOp []
  have pushdata4 : OP_PUSHDATA4.toNat = 78 := rfl
  have negate : OP_1NEGATE.toNat = 79 := rfl
  have one : OP_1.toNat = 81 := rfl
  have sixteen : OP_16.toNat = 96 := rfl
  simp only [Pushes, whole]
  constructor
  · rintro ⟨vch, isOp, pushed⟩
    unfold CScript.pushed at pushed
    split at pushed
    · rename_i plain
      obtain rfl := Option.some.inj pushed
      exact .inl ⟨plain, isOp⟩
    rename_i plain
    split at pushed
    · rename_i number
      obtain rfl := Option.some.inj pushed
      rw [← UInt8.toNat_inj, UInt8.le_iff_toNat_le, UInt8.le_iff_toNat_le] at number
      exact .inr ⟨((isOp_plain_iff plain).mp isOp).2,
        constantOf_serialize opcode.toNat (by omega) (by omega)⟩
    · cases pushed
  · rintro (⟨plain, isOp⟩ | ⟨rfl, constant⟩)
    · exact ⟨data, isOp, if_pos plain⟩
    obtain ⟨low, high, -, value⟩ := constantOf_eq_some constant
    have plain : ¬ opcode ≤ OP_PUSHDATA4 := by
      rw [UInt8.le_iff_toNat_le]
      omega
    refine ⟨[], (isOp_plain_iff plain).mpr ⟨rfl, rfl⟩, ?_⟩
    have number : opcode = OP_1NEGATE ∨ (OP_1 ≤ opcode ∧ opcode ≤ OP_16) := by
      rw [← UInt8.toNat_inj, UInt8.le_iff_toNat_le, UInt8.le_iff_toNat_le]
      omega
    rw [pushed, if_neg plain, if_pos number, ← value]

/-- The length of an operation that pushes its operand. -/
theorem isOp_length (plain : opcode ≤ OP_PUSHDATA4) (isOp : IsOp opcode data script) :
    (opcode.toNat < 76 ∧ data.length = opcode.toNat ∧ script.length = data.length + 1) ∨
    (opcode.toNat = 76 ∧ data.length < 2 ^ 8 ∧ script.length = data.length + 2) ∨
    (opcode.toNat = 77 ∧ data.length < 2 ^ 16 ∧ script.length = data.length + 3) ∨
    (opcode.toNat = 78 ∧ data.length < 2 ^ 32 ∧ script.length = data.length + 5) := by
  obtain ⟨size, rfl, width, operand⟩ := isOp
  have bound := ofLittleEndian_lt size
  have pushdata1 : OP_PUSHDATA1.toNat = 76 := rfl
  have pushdata2 : OP_PUSHDATA2.toNat = 77 := rfl
  have pushdata4 : OP_PUSHDATA4.toNat = 78 := rfl
  rw [UInt8.le_iff_toNat_le] at plain
  simp only [operandSize, UInt8.lt_iff_toNat_lt] at operand
  simp only [sizeWidth, ← UInt8.toNat_inj] at width
  rw [List.length_cons, List.length_append]
  split_ifs at operand width <;> rw [width] at bound <;> omega

theorem checkMinimalPush_iff :
    checkMinimalPush data opcode = true ↔ match constantOf data with
      | some n => opcode.toNat = n
      | none =>
        if data.length ≤ 75 then opcode.toNat = data.length
        else if data.length ≤ 255 then opcode.toNat = 76
        else data.length ≤ 65535 → opcode.toNat = 77 := by
  have one : OP_1.toNat = 81 := rfl
  match data with
  | [] => simp [checkMinimalPush, constantOf, ← UInt8.toNat_inj]
  | [byte] =>
    simp only [checkMinimalPush, constantOf, UInt8.le_iff_toNat_le, ← UInt8.toNat_inj,
      UInt8.reduceToNat, List.length_singleton]
    split_ifs <;> simp [one, OP_1NEGATE, ← UInt8.toNat_inj] <;> omega
  | first :: second :: rest =>
    simp only [checkMinimalPush, constantOf]
    generalize (first :: second :: rest).length = length
    split_ifs <;> simp [OP_PUSHDATA1, OP_PUSHDATA2, ← UInt8.toNat_inj] <;> omega

/-- The check passes on the shortest pushes. -/
theorem Pushes.check (pushes : Pushes script opcode data) :
    data.length < 2 ^ 32 ∧ leastPush data ≤ script.length ∧
      (checkMinimalPush data opcode = true ↔ script.length = leastPush data) := by
  rw [checkMinimalPush_iff, leastPush]
  rcases pushes_iff.mp pushes with ⟨plain, isOp⟩ | ⟨rfl, constant⟩
  · have length := isOp_length plain isOp
    cases constant : constantOf data with
    | none =>
      simp only [Option.isSome_none, Bool.false_eq_true, if_false]
      split_ifs <;> omega
    | some n =>
      obtain ⟨low, -, one, -⟩ := constantOf_eq_some constant
      simp only [Option.isSome_some, if_true]
      omega
  · obtain ⟨-, -, one, -⟩ := constantOf_eq_some constant
    rw [constant]
    exact ⟨by omega, Nat.le_refl _, iff_of_true rfl rfl⟩

theorem exists_leastPush (small : data.length < 2 ^ 32) :
    ∃ script opcode, Pushes script opcode data ∧ script.length = leastPush data := by
  cases constant : constantOf data with
  | some n =>
    obtain ⟨-, high, -⟩ := constantOf_eq_some constant
    refine ⟨[UInt8.ofNat n], UInt8.ofNat n, pushes_iff.mpr (.inr ⟨rfl, ?_⟩), ?_⟩
    · rw [constant, UInt8.toNat_ofNat', Nat.mod_eq_of_lt (by omega)]
    · rw [leastPush, constant]
      rfl
  | none =>
    obtain ⟨opcode, plain, isOp⟩ := isOp_pushData small
    refine ⟨_, opcode, pushes_iff.mpr (.inl ⟨plain, isOp⟩), ?_⟩
    have pushdata1 : OP_PUSHDATA1.toNat = 76 := rfl
    rw [leastPush, constant, pushData, pushdata1]
    simp only [Option.isSome_none, Bool.false_eq_true, if_false]
    split_ifs <;> simp <;> omega

end Pushes

/-- What is pushed is read back to its end, a script that can be read is the sequence of its
operations, and the check asks for a push that no other push of the data is shorter than. -/
theorem pushes_read_back :
    (∀ (script : CScript) (b : List UInt8), b.length < 2 ^ 32 →
      ∃ opcode ≤ OP_PUSHDATA4, getOp2 (script ++ pushData b) script.length =
        some ((script ++ pushData b).length, some (opcode, b))) ∧
    (∀ (script : CScript) (pc : Nat), pc ≤ script.length →
      ∃ pc' found, script.getOp2 pc = some (pc', found) ∧ pc ≤ pc' ∧ pc' ≤ script.length) ∧
    (∀ (script : CScript) (ops : List (UInt8 × List UInt8)), ParsesFrom script 0 ops →
      ∃ pieces : List CScript, script = pieces.flatten ∧
        List.Forall₂ (fun piece op => piece.getOp2 0 = some (piece.length, some op)) pieces ops) ∧
    ∀ (script : CScript) (opcode : UInt8) (data : List UInt8), Pushes script opcode data →
      (checkMinimalPush data opcode = true ↔
        ∀ script' opcode', Pushes script' opcode' data → script.length ≤ script'.length) := by
  refine ⟨fun script b small => ?_, fun script pc inside => ?_, fun script ops parses => ?_,
    fun script opcode data pushes => ?_⟩
  · obtain ⟨opcode, plain, isOp⟩ := isOp_pushData small
    exact ⟨opcode, plain, getOp2_of_isOp script isOp⟩
  · obtain ⟨pc', found, read, forward, within, -⟩ := getOp2_spec script inside
    exact ⟨pc', found, read, forward, within⟩
  · exact parses.pieces (Nat.zero_le _)
  obtain ⟨small, low, check⟩ := pushes.check
  rw [check]
  constructor
  · intro least script' opcode' pushes'
    exact least ▸ pushes'.check.2.1
  · intro shortest
    obtain ⟨script', opcode', pushes', least⟩ := exists_leastPush small
    exact Nat.le_antisymm (least ▸ shortest script' opcode' pushes') low

end Esbcoin.CScript
