import Esbcoin.Primitives

/-!
# Script parsing

The parts of `src/script/script.h` and `src/script/script.cpp` that classify an output
script without running it.
-/

namespace Esbcoin.CScript

/-- `OP_PUSHDATA1` (`script/script.h:35`). -/
def OP_PUSHDATA1 : UInt8 := 0x4c

/-- `OP_PUSHDATA2` (`script/script.h:36`). -/
def OP_PUSHDATA2 : UInt8 := 0x4d

/-- `OP_PUSHDATA4` (`script/script.h:37`). -/
def OP_PUSHDATA4 : UInt8 := 0x4e

/-- `OP_RETURN` (`script/script.h:68`). -/
def OP_RETURN : UInt8 := 0x6a

/-- `OP_DUP` (`script/script.h:82`). -/
def OP_DUP : UInt8 := 0x76

/-- `OP_EQUALVERIFY` (`script/script.h:104`). -/
def OP_EQUALVERIFY : UInt8 := 0x88

/-- `OP_HASH160` (`script/script.h:144`). -/
def OP_HASH160 : UInt8 := 0xa9

/-- `OP_CHECKSIG` (`script/script.h:147`). -/
def OP_CHECKSIG : UInt8 := 0xac

/-- `OP_INVALIDOPCODE` (`script/script.h:171`). -/
def OP_INVALIDOPCODE : UInt8 := 0xff

/-- The size of the immediate operand of a push and the script behind the size, `none` if
the script ends in the size bytes (`script/script.h:492-517`). -/
def pushSize (opcode : UInt8) (pc : CScript) : Option (Nat × CScript) :=
  if opcode < OP_PUSHDATA1 then some (opcode.toNat, pc)
  else if opcode = OP_PUSHDATA1 then
    match pc with
    | b0 :: rest => some (b0.toNat, rest)
    | _ => none
  else if opcode = OP_PUSHDATA2 then
    match pc with
    | b0 :: b1 :: rest => some (b0.toNat + 256 * b1.toNat, rest)
    | _ => none
  else
    match pc with
    | b0 :: b1 :: b2 :: b3 :: rest =>
        some (b0.toNat + 256 * (b1.toNat + 256 * (b2.toNat + 256 * b3.toNat)), rest)
    | _ => none

/-- `CScript::GetOp2` (`script/script.h:476-527`) without the operand: the opcode read and
where `pc` ends. A failure leaves `OP_INVALIDOPCODE` and `pc` behind what was read. -/
def getOp : CScript → UInt8 × CScript
  | [] => (OP_INVALIDOPCODE, [])
  | opcode :: pc =>
    if opcode ≤ OP_PUSHDATA4 then
      match pushSize opcode pc with
      | none => (OP_INVALIDOPCODE, pc)
      | some (nSize, rest) =>
        if rest.length < nSize then (OP_INVALIDOPCODE, rest) else (opcode, rest.drop nSize)
    else (opcode, pc)

/-- The loop of `IsNormalPaymentScript`: the opcode at each position is the expected one,
where one is expected, and no opcode follows the last position. -/
def matchesOps : List (Option UInt8) → CScript → Bool
  | _, [] => true
  | [], _ :: _ => false
  | expected :: more, opcode :: script =>
    let (found, rest) := getOp (opcode :: script)
    (expected == none || expected == some found) && matchesOps more rest

/-- `CScript::IsNormalPaymentScript` (`script/script.cpp:213-235`). -/
def isNormalPaymentScript (script : CScript) : Bool :=
  script.length == 25 &&
    matchesOps [some OP_DUP, some OP_HASH160, none, some OP_EQUALVERIFY, some OP_CHECKSIG] script

/-- `CScript::IsUnspendable` (`script/script.h:600-603`). -/
def isUnspendable (script : CScript) : Bool := script.head? == some OP_RETURN

end Esbcoin.CScript
