import Esbcoin.Destination
import Esbcoin.Lib.Decimal

/-!
# Scripts as text

`CScript::ToString` (`src/script/script.cpp:268-289`) with the names of the opcodes. The text names
what is pushed and not the opcode that pushes it.
-/

namespace Esbcoin.CScript

/-- The names from `OP_NOP` to `OP_NOP10` (`script/script.cpp:49-151`). -/
def opNames : List String :=
  ["OP_NOP", "OP_VER", "OP_IF", "OP_NOTIF", "OP_VERIF", "OP_VERNOTIF", "OP_ELSE", "OP_ENDIF",
    "OP_VERIFY", "OP_RETURN", "OP_TOALTSTACK", "OP_FROMALTSTACK", "OP_2DROP", "OP_2DUP", "OP_3DUP",
    "OP_2OVER", "OP_2ROT", "OP_2SWAP", "OP_IFDUP", "OP_DEPTH", "OP_DROP", "OP_DUP", "OP_NIP",
    "OP_OVER", "OP_PICK", "OP_ROLL", "OP_ROT", "OP_SWAP", "OP_TUCK", "OP_CAT", "OP_SUBSTR",
    "OP_LEFT", "OP_RIGHT", "OP_SIZE", "OP_INVERT", "OP_AND", "OP_OR", "OP_XOR", "OP_EQUAL",
    "OP_EQUALVERIFY", "OP_RESERVED1", "OP_RESERVED2", "OP_1ADD", "OP_1SUB", "OP_2MUL", "OP_2DIV",
    "OP_NEGATE", "OP_ABS", "OP_NOT", "OP_0NOTEQUAL", "OP_ADD", "OP_SUB", "OP_MUL", "OP_DIV",
    "OP_MOD", "OP_LSHIFT", "OP_RSHIFT", "OP_BOOLAND", "OP_BOOLOR", "OP_NUMEQUAL",
    "OP_NUMEQUALVERIFY", "OP_NUMNOTEQUAL", "OP_LESSTHAN", "OP_GREATERTHAN", "OP_LESSTHANOREQUAL",
    "OP_GREATERTHANOREQUAL", "OP_MIN", "OP_MAX", "OP_WITHIN", "OP_RIPEMD160", "OP_SHA1",
    "OP_SHA256", "OP_HASH160", "OP_HASH256", "OP_CODESEPARATOR", "OP_CHECKSIG",
    "OP_CHECKSIGVERIFY", "OP_CHECKMULTISIG", "OP_CHECKMULTISIGVERIFY", "OP_NOP1", "OP_NOP2",
    "OP_NOP3", "OP_NOP4", "OP_NOP5", "OP_NOP6", "OP_NOP7", "OP_NOP8", "OP_NOP9", "OP_NOP10"]

/-- `GetOpName` (`script/script.cpp:21-163`) of an opcode that pushes nothing but a number. -/
def getOpName (opcode : UInt8) : String :=
  if opcode = 0x4f then "-1"
  else if opcode = 0x50 then "OP_RESERVED"
  else if opcode ≤ 0x60 then String.ofList (decimal (opcode.toNat - 0x50 : Nat))
  else if opcode = OP_INVALIDOPCODE then "OP_INVALIDOPCODE"
  else opNames.getD (opcode.toNat - 0x61) "OP_UNKNOWN"

/-- `CScriptNum::set_vch` (`script/script.h:322-340`): little endian, the highest bit the sign. -/
def scriptNum (vch : List UInt8) : Int :=
  let result := vch.foldr (fun byte more => byte.toNat + 256 * more) 0
  match vch.getLast? with
  | none => 0
  | some last =>
    if last ≥ 0x80 then -((result - 0x80 * 256 ^ (vch.length - 1) : Nat) : Int) else result

/-- `ValueString` (`script/script.cpp:11-17`). -/
def valueString (vch : List UInt8) : List Char :=
  if vch.length ≤ 4 then decimal (scriptNum vch)
  else vch.flatMap fun byte => hexText 2 byte.toNat

/-- What `CScript::ToString` writes for an operation. -/
def opText (opcode : UInt8) (vch : List UInt8) : List Char :=
  if opcode ≤ OP_PUSHDATA4 then valueString vch else (getOpName opcode).toList

/-- The loop of `CScript::ToString` behind the text `str`; every turn reads at least a byte. -/
def toTextFrom : Nat → List Char → CScript → List Char
  | 0, str, _ => str
  | fuel + 1, str, script =>
    if script.isEmpty then str
    else
      let str := if str.isEmpty then str else str ++ [' ']
      match script.readOp with
      | none => str ++ "[error]".toList
      | some (opcode, vch, rest) => toTextFrom fuel (str ++ opText opcode vch) rest

/-- `CScript::ToString` (`script/script.cpp:268-289`). -/
def toText (script : CScript) : List Char := toTextFrom script.length [] script

end Esbcoin.CScript
