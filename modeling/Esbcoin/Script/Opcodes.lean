import Esbcoin.Script.Push
import Esbcoin.Script.SignatureHash
import Esbcoin.ScriptText

/-!
# Opcodes, script numbers and encodings

The opcodes behind the pushes (`src/script/script.h:59-162`), `CScriptNum`
(`src/script/script.h:182-343`), the errors of `src/script/script_error.h` that running a script
gives, and the rules on encodings in `src/script/interpreter.cpp:39-236`. A byte vector on the
stack is a list of bytes.
-/

namespace Esbcoin

/-- `valtype` (`script/script.h:19`). -/
abbrev valtype := List UInt8

/-- `ScriptError` (`script/script_error.h`), with the failure of an assertion. -/
inductive ScriptError where
  | UNKNOWN_ERROR | EVAL_FALSE | OP_RETURN
  | SCRIPT_SIZE | PUSH_SIZE | OP_COUNT | STACK_SIZE | SIG_COUNT | PUBKEY_COUNT
  | VERIFY | EQUALVERIFY | CHECKMULTISIGVERIFY | CHECKSIGVERIFY | NUMEQUALVERIFY
  | BAD_OPCODE | DISABLED_OPCODE | INVALID_STACK_OPERATION | INVALID_ALTSTACK_OPERATION
  | UNBALANCED_CONDITIONAL
  | SIG_HASHTYPE | SIG_DER | MINIMALDATA | SIG_PUSHONLY | SIG_HIGH_S | SIG_NULLDUMMY | PUBKEYTYPE
  | DISCOURAGE_UPGRADABLE_NOPS
  | assertion
deriving DecidableEq, Repr

/-- The opcodes from `OP_NOP` on (`script/script.h:59-162`). -/
inductive Op where
  | OP_NOP | OP_VER | OP_IF | OP_NOTIF | OP_VERIF | OP_VERNOTIF | OP_ELSE | OP_ENDIF
  | OP_VERIFY | OP_RETURN
  | OP_TOALTSTACK | OP_FROMALTSTACK | OP_2DROP | OP_2DUP | OP_3DUP | OP_2OVER | OP_2ROT | OP_2SWAP
  | OP_IFDUP | OP_DEPTH | OP_DROP | OP_DUP | OP_NIP | OP_OVER | OP_PICK | OP_ROLL | OP_ROT | OP_SWAP
  | OP_TUCK
  | OP_CAT | OP_SUBSTR | OP_LEFT | OP_RIGHT | OP_SIZE
  | OP_INVERT | OP_AND | OP_OR | OP_XOR | OP_EQUAL | OP_EQUALVERIFY | OP_RESERVED1 | OP_RESERVED2
  | OP_1ADD | OP_1SUB | OP_2MUL | OP_2DIV | OP_NEGATE | OP_ABS | OP_NOT | OP_0NOTEQUAL
  | OP_ADD | OP_SUB | OP_MUL | OP_DIV | OP_MOD | OP_LSHIFT | OP_RSHIFT
  | OP_BOOLAND | OP_BOOLOR | OP_NUMEQUAL | OP_NUMEQUALVERIFY | OP_NUMNOTEQUAL | OP_LESSTHAN
  | OP_GREATERTHAN | OP_LESSTHANOREQUAL | OP_GREATERTHANOREQUAL | OP_MIN | OP_MAX | OP_WITHIN
  | OP_RIPEMD160 | OP_SHA1 | OP_SHA256 | OP_HASH160 | OP_HASH256 | OP_CODESEPARATOR
  | OP_CHECKSIG | OP_CHECKSIGVERIFY | OP_CHECKMULTISIG | OP_CHECKMULTISIGVERIFY
  | OP_NOP1 | OP_NOP2 | OP_NOP3 | OP_NOP4 | OP_NOP5 | OP_NOP6 | OP_NOP7 | OP_NOP8 | OP_NOP9
  | OP_NOP10
deriving DecidableEq, Repr

namespace Op

/-- The opcodes in the order of their bytes, from `OP_NOP = 0x61` on. -/
def inOrder : List Op :=
  [OP_NOP, OP_VER, OP_IF, OP_NOTIF, OP_VERIF, OP_VERNOTIF, OP_ELSE, OP_ENDIF, OP_VERIFY, OP_RETURN,
    OP_TOALTSTACK, OP_FROMALTSTACK, OP_2DROP, OP_2DUP, OP_3DUP, OP_2OVER, OP_2ROT, OP_2SWAP,
    OP_IFDUP, OP_DEPTH, OP_DROP, OP_DUP, OP_NIP, OP_OVER, OP_PICK, OP_ROLL, OP_ROT, OP_SWAP,
    OP_TUCK, OP_CAT, OP_SUBSTR, OP_LEFT, OP_RIGHT, OP_SIZE, OP_INVERT, OP_AND, OP_OR, OP_XOR,
    OP_EQUAL, OP_EQUALVERIFY, OP_RESERVED1, OP_RESERVED2, OP_1ADD, OP_1SUB, OP_2MUL, OP_2DIV,
    OP_NEGATE, OP_ABS, OP_NOT, OP_0NOTEQUAL, OP_ADD, OP_SUB, OP_MUL, OP_DIV, OP_MOD, OP_LSHIFT,
    OP_RSHIFT, OP_BOOLAND, OP_BOOLOR, OP_NUMEQUAL, OP_NUMEQUALVERIFY, OP_NUMNOTEQUAL,
    OP_LESSTHAN, OP_GREATERTHAN, OP_LESSTHANOREQUAL, OP_GREATERTHANOREQUAL, OP_MIN, OP_MAX,
    OP_WITHIN, OP_RIPEMD160, OP_SHA1, OP_SHA256, OP_HASH160, OP_HASH256, OP_CODESEPARATOR,
    OP_CHECKSIG, OP_CHECKSIGVERIFY, OP_CHECKMULTISIG, OP_CHECKMULTISIGVERIFY, OP_NOP1, OP_NOP2,
    OP_NOP3, OP_NOP4, OP_NOP5, OP_NOP6, OP_NOP7, OP_NOP8, OP_NOP9, OP_NOP10]

/-- The opcode with this byte. -/
def ofByte (opcode : UInt8) : Option Op :=
  if opcode < 0x61 then none else inOrder[opcode.toNat - 0x61]?

/-- The opcodes that are disabled (`interpreter.cpp:279-294`). -/
def disabled : List Op :=
  [OP_CAT, OP_SUBSTR, OP_LEFT, OP_RIGHT, OP_INVERT, OP_AND, OP_OR, OP_XOR, OP_2MUL, OP_2DIV,
    OP_MUL, OP_DIV, OP_MOD, OP_LSHIFT, OP_RSHIFT]

end Op

/-- `OP_1NEGATE` (`script/script.h:38`). -/
def CScript.OP_1NEGATE : UInt8 := 0x4f

/-- `OP_1` (`script/script.h:40`). -/
def CScript.OP_1 : UInt8 := 0x51

/-- `OP_16` (`script/script.h:56`). -/
def CScript.OP_16 : UInt8 := 0x60

/-- The verification flags (`script/interpreter.h:36-71`). -/
def SCRIPT_VERIFY_P2SH : UInt32 := 0x1
def SCRIPT_VERIFY_STRICTENC : UInt32 := 0x2
def SCRIPT_VERIFY_DERSIG : UInt32 := 0x4
def SCRIPT_VERIFY_LOW_S : UInt32 := 0x8
def SCRIPT_VERIFY_NULLDUMMY : UInt32 := 0x10
def SCRIPT_VERIFY_SIGPUSHONLY : UInt32 := 0x20
def SCRIPT_VERIFY_MINIMALDATA : UInt32 := 0x40
def SCRIPT_VERIFY_DISCOURAGE_UPGRADABLE_NOPS : UInt32 := 0x80

/-- A verification flag is set. -/
def hasFlag (flags flag : UInt32) : Bool := flags &&& flag != 0

/-- Fails if something is wrong. -/
def failIf (wrong : Bool) (error : ScriptError) : Except ScriptError Unit :=
  if wrong then .error error else .ok ()

/-! ## Values -/

/-- `CastToBool` (`interpreter.cpp:39-52`): not all zero but for the sign of the last byte. -/
def castToBool : valtype → Bool
  | [] => false
  | [last] => last != 0 && last != 0x80
  | byte :: vch => byte != 0 || castToBool vch

/-- What a truth value is on the stack. -/
def boolValue (value : Bool) : valtype := if value then [1] else []

namespace CScriptNum

/-- `CScriptNum(vch, fRequireMinimal)` (`script/script.h:199-221`): at most four bytes. -/
def ofBytes (vch : valtype) (fRequireMinimal : Bool) : Except ScriptError Int :=
  if vch.length > 4 then .error .UNKNOWN_ERROR
  else
    let padded :=
      match vch.reverse with
      | [] => false
      | [back] => back &&& 0x7f == 0
      | back :: second :: _ => back &&& 0x7f == 0 && second &&& 0x80 == 0
    if fRequireMinimal && padded then .error .UNKNOWN_ERROR else .ok (CScript.scriptNum vch)

/-- `CScriptNum::getint` (`script/script.h:275-282`). -/
def getint (value : Int) : Int := max (-2 ^ 31) (min value (2 ^ 31 - 1))

end CScriptNum

/-! ## Encodings -/

/-- `IsCompressedOrUncompressedPubKey` (`interpreter.cpp:67-87`). -/
def isCompressedOrUncompressedPubKey (vchPubKey : valtype) : Bool :=
  match vchPubKey with
  | [] => false
  | first :: _ =>
    if first = 0x04 then vchPubKey.length == 65
    else if first = 0x02 ∨ first = 0x03 then vchPubKey.length == 33
    else false

/-- `IsValidSignatureEncoding` (`interpreter.cpp:99-162`). -/
def isValidSignatureEncoding (sig : valtype) : Bool :=
  let byte (i : Nat) : UInt8 := sig.getD i 0
  let lenR := (byte 3).toNat
  let lenS := (byte (5 + lenR)).toNat
  if sig.length < 9 ∨ sig.length > 73 then false
  else if byte 0 ≠ 0x30 then false
  else if (byte 1).toNat ≠ sig.length - 3 then false
  else if 5 + lenR ≥ sig.length then false
  else if lenR + lenS + 7 ≠ sig.length then false
  else if byte 2 ≠ 0x02 then false
  else if lenR = 0 then false
  else if byte 4 &&& 0x80 ≠ 0 then false
  else if lenR > 1 ∧ byte 4 = 0 ∧ byte 5 &&& 0x80 = 0 then false
  else if byte (lenR + 4) ≠ 0x02 then false
  else if lenS = 0 then false
  else if byte (lenR + 6) &&& 0x80 ≠ 0 then false
  else if lenS > 1 ∧ byte (lenR + 6) = 0 ∧ byte (lenR + 7) &&& 0x80 = 0 then false
  else true

/-- The number that the bytes spell, highest first. -/
def bigEndian (bytes : List UInt8) : Nat := bytes.foldl (fun n byte => 256 * n + byte.toNat) 0

/-- `vchMaxModHalfOrder` (`eccryptoverify.cpp:43-48`). -/
def maxModHalfOrder : Nat :=
  0x7FFFFFFFFFFFFFFFFFFFFFFFFFFFFFFF5D576E7357A4501DDFE92F46681B20A0

/-- `IsLowDERSignature` (`interpreter.cpp:164-178`), with `CheckSignatureElement`. -/
def checkLowDERSignature (vchSig : valtype) : Except ScriptError Unit := do
  failIf (!isValidSignatureEncoding vchSig) .SIG_DER
  let nLenR := (vchSig.getD 3 0).toNat
  let nLenS := (vchSig.getD (5 + nLenR) 0).toNat
  let s := bigEndian ((vchSig.drop (6 + nLenR)).take nLenS)
  failIf (s == 0 || decide (s > maxModHalfOrder)) .SIG_HIGH_S

/-- `IsDefinedHashtypeSignature` (`interpreter.cpp:180-189`). -/
def isDefinedHashtypeSignature (vchSig : valtype) : Bool :=
  match vchSig.getLast? with
  | none => false
  | some last =>
    let nHashType := last &&& ~~~(0x80 : UInt8)
    !(decide (nHashType < 1) || decide (nHashType > 3))

/-- `CheckSignatureEncoding` (`interpreter.cpp:191-206`). -/
def checkSignatureEncoding (flags : UInt32) (vchSig : valtype) : Except ScriptError Unit :=
  if vchSig.isEmpty then .ok ()
  else do
    failIf (hasFlag flags
        (SCRIPT_VERIFY_DERSIG ||| SCRIPT_VERIFY_LOW_S ||| SCRIPT_VERIFY_STRICTENC) &&
      !isValidSignatureEncoding vchSig) .SIG_DER
    if hasFlag flags SCRIPT_VERIFY_LOW_S then checkLowDERSignature vchSig else .ok ()
    failIf (hasFlag flags SCRIPT_VERIFY_STRICTENC && !isDefinedHashtypeSignature vchSig)
      .SIG_HASHTYPE

/-- `CheckPubKeyEncoding` (`interpreter.cpp:208-213`). -/
def checkPubKeyEncoding (flags : UInt32) (vchPubKey : valtype) : Except ScriptError Unit :=
  failIf (hasFlag flags SCRIPT_VERIFY_STRICTENC && !isCompressedOrUncompressedPubKey vchPubKey)
    .PUBKEYTYPE

/-- `CheckMinimalPush` (`interpreter.cpp:215-236`). -/
def checkMinimalPush (data : valtype) (opcode : UInt8) : Bool :=
  match data with
  | [] => opcode == 0
  | [byte] =>
    if 1 ≤ byte ∧ byte ≤ 16 then opcode.toNat == CScript.OP_1.toNat + (byte.toNat - 1)
    else if byte = 0x81 then opcode == CScript.OP_1NEGATE
    else opcode == 1
  | _ =>
    if data.length ≤ 75 then opcode.toNat == data.length
    else if data.length ≤ 255 then opcode == CScript.OP_PUSHDATA1
    else if data.length ≤ 65535 then opcode == CScript.OP_PUSHDATA2
    else true

end Esbcoin
