import Esbcoin.Lib.Calls
import Esbcoin.Script.SigOps

/-!
# Running scripts

`EvalScript` and `VerifyScript` (`src/script/interpreter.cpp:238-935, 1086-1137`). The stacks are
lists with the top first. Every operation but those that check signatures is a function of the
machine; the signature checker is called through `Counted`, and may answer by how often it has been
called. A `catch` around the whole makes every exception an unknown error.
-/

namespace Esbcoin

open Counted CScriptNum

/-- What running a script asks of the hash functions and of the signature checker, which throws
where it gives no answer. -/
structure ScriptEnv where
  ripemd160 : valtype → valtype
  sha1 : valtype → valtype
  sha256 : valtype → valtype
  /-- `checker.CheckSig(vchSig, vchPubKey, scriptCode)`, after so many calls. -/
  checkSig : Nat → valtype → valtype → CScript → Option Bool

/-- The variables of `EvalScript` (`interpreter.cpp:248-260`) but for `pc`. -/
structure ScriptMachine where
  stack : List valtype
  altstack : List valtype := []
  vfExec : List Bool := []
  nOpCount : Int := 0
  /-- The script from `pbegincodehash` on. -/
  codehash : CScript

/-- A computation that may call the signature checker. -/
abbrev Checking (α : Type) := Counted ScriptError α

namespace ScriptMachine

/-- `fExec` (`interpreter.cpp:265`). -/
def fExec (m : ScriptMachine) : Bool := m.vfExec.all id

/-- Push a value. -/
def push (m : ScriptMachine) (vch : valtype) : ScriptMachine := { m with stack := vch :: m.stack }

/-- `OP_IF` and `OP_NOTIF` (`interpreter.cpp:348-365`). -/
def opIf (m : ScriptMachine) (negated : Bool) : Except ScriptError ScriptMachine :=
  if m.fExec then
    match m.stack with
    | [] => .error .UNBALANCED_CONDITIONAL
    | vch :: stack => .ok { m with stack, vfExec := (castToBool vch != negated) :: m.vfExec }
  else .ok { m with vfExec := false :: m.vfExec }

/-- `OP_ELSE` (`interpreter.cpp:367-373`). -/
def opElse (m : ScriptMachine) : Except ScriptError ScriptMachine :=
  match m.vfExec with
  | [] => .error .UNBALANCED_CONDITIONAL
  | last :: vfExec => .ok { m with vfExec := (!last) :: vfExec }

/-- `OP_ENDIF` (`interpreter.cpp:375-381`). -/
def opEndIf (m : ScriptMachine) : Except ScriptError ScriptMachine :=
  match m.vfExec with
  | [] => .error .UNBALANCED_CONDITIONAL
  | _ :: vfExec => .ok { m with vfExec }

/-- `OP_VERIFY` (`interpreter.cpp:383-395`). -/
def opVerify (m : ScriptMachine) : Except ScriptError ScriptMachine :=
  match m.stack with
  | [] => .error .INVALID_STACK_OPERATION
  | vch :: stack => if castToBool vch then .ok { m with stack } else .error .VERIFY

/-- `OP_TOALTSTACK` (`interpreter.cpp:407-414`). -/
def opToAltStack (m : ScriptMachine) : Except ScriptError ScriptMachine :=
  match m.stack with
  | [] => .error .INVALID_STACK_OPERATION
  | vch :: stack => .ok { m with stack, altstack := vch :: m.altstack }

/-- `OP_FROMALTSTACK` (`interpreter.cpp:416-423`). -/
def opFromAltStack (m : ScriptMachine) : Except ScriptError ScriptMachine :=
  match m.altstack with
  | [] => .error .INVALID_ALTSTACK_OPERATION
  | vch :: altstack => .ok { m with stack := vch :: m.stack, altstack }

end ScriptMachine

/-! ## Operations on the stack -/

/-- The operations that only move values (`interpreter.cpp:425-611`), and `OP_DEPTH` and
`OP_SIZE`. -/
def moveValues : Op → List valtype → Except ScriptError (List valtype)
  | .OP_2DROP, _ :: _ :: stack => .ok stack
  | .OP_2DUP, x2 :: x1 :: stack => .ok (x2 :: x1 :: x2 :: x1 :: stack)
  | .OP_3DUP, x3 :: x2 :: x1 :: stack => .ok (x3 :: x2 :: x1 :: x3 :: x2 :: x1 :: stack)
  | .OP_2OVER, x4 :: x3 :: x2 :: x1 :: stack => .ok (x2 :: x1 :: x4 :: x3 :: x2 :: x1 :: stack)
  | .OP_2ROT, x6 :: x5 :: x4 :: x3 :: x2 :: x1 :: stack =>
    .ok (x2 :: x1 :: x6 :: x5 :: x4 :: x3 :: stack)
  | .OP_2SWAP, x4 :: x3 :: x2 :: x1 :: stack => .ok (x2 :: x1 :: x4 :: x3 :: stack)
  | .OP_IFDUP, x :: stack => .ok (if castToBool x then x :: x :: stack else x :: stack)
  | .OP_DEPTH, stack => .ok (serialize stack.length :: stack)
  | .OP_DROP, _ :: stack => .ok stack
  | .OP_DUP, x :: stack => .ok (x :: x :: stack)
  | .OP_NIP, x2 :: _ :: stack => .ok (x2 :: stack)
  | .OP_OVER, x2 :: x1 :: stack => .ok (x1 :: x2 :: x1 :: stack)
  | .OP_ROT, x3 :: x2 :: x1 :: stack => .ok (x1 :: x3 :: x2 :: stack)
  | .OP_SWAP, x2 :: x1 :: stack => .ok (x1 :: x2 :: stack)
  | .OP_TUCK, x2 :: x1 :: stack => .ok (x2 :: x1 :: x2 :: stack)
  | .OP_SIZE, x :: stack => .ok (serialize x.length :: x :: stack)
  | _, _ => .error .INVALID_STACK_OPERATION

/-- `OP_PICK` and `OP_ROLL` (`interpreter.cpp:553-569`). -/
def pickValue (fRequireMinimal fRoll : Bool) :
    List valtype → Except ScriptError (List valtype)
  | top :: x0 :: below => do
    let n := getint (← ofBytes top fRequireMinimal)
    let stack := x0 :: below
    failIf (decide (n < 0) || decide (n ≥ stack.length)) .INVALID_STACK_OPERATION
    let vch := stack.getD n.toNat []
    .ok (vch :: if fRoll then stack.eraseIdx n.toNat else stack)
  | _ => .error .INVALID_STACK_OPERATION

/-- `OP_EQUAL` and `OP_EQUALVERIFY` (`interpreter.cpp:617-643`). -/
def compareValues (verify : Bool) : List valtype → Except ScriptError (List valtype)
  | x2 :: x1 :: stack =>
    if verify then if x1 = x2 then .ok stack else .error .EQUALVERIFY
    else .ok (boolValue (x1 == x2) :: stack)
  | _ => .error .INVALID_STACK_OPERATION

/-- The operations on one number (`interpreter.cpp:660-669`). -/
def onNumber (op : Op) (bn : Int) : Int :=
  match op with
  | .OP_1ADD => bn + 1
  | .OP_1SUB => bn - 1
  | .OP_NEGATE => -bn
  | .OP_ABS => if bn < 0 then -bn else bn
  | .OP_NOT => if bn = 0 then 1 else 0
  | _ => if bn ≠ 0 then 1 else 0

/-- The operations on two numbers (`interpreter.cpp:694-717`). -/
def onNumbers (op : Op) (bn1 bn2 : Int) : Int :=
  let truth (value : Prop) [Decidable value] : Int := if value then 1 else 0
  match op with
  | .OP_ADD => bn1 + bn2
  | .OP_SUB => bn1 - bn2
  | .OP_BOOLAND => truth (bn1 ≠ 0 ∧ bn2 ≠ 0)
  | .OP_BOOLOR => truth (bn1 ≠ 0 ∨ bn2 ≠ 0)
  | .OP_NUMEQUAL | .OP_NUMEQUALVERIFY => truth (bn1 = bn2)
  | .OP_NUMNOTEQUAL => truth (bn1 ≠ bn2)
  | .OP_LESSTHAN => truth (bn1 < bn2)
  | .OP_GREATERTHAN => truth (bn1 > bn2)
  | .OP_LESSTHANOREQUAL => truth (bn1 ≤ bn2)
  | .OP_GREATERTHANOREQUAL => truth (bn1 ≥ bn2)
  | .OP_MIN => if bn1 < bn2 then bn1 else bn2
  | _ => if bn1 > bn2 then bn1 else bn2

/-- The operations with numbers (`interpreter.cpp:649-746`). -/
def computeNumber (op : Op) (fRequireMinimal : Bool) (stack : List valtype) :
    Except ScriptError (List valtype) :=
  match op, stack with
  | .OP_1ADD, x :: rest | .OP_1SUB, x :: rest | .OP_NEGATE, x :: rest | .OP_ABS, x :: rest
  | .OP_NOT, x :: rest | .OP_0NOTEQUAL, x :: rest => do
    let bn ← ofBytes x fRequireMinimal
    .ok (serialize (onNumber op bn) :: rest)
  | .OP_WITHIN, x3 :: x2 :: x1 :: rest => do
    let bn1 ← ofBytes x1 fRequireMinimal
    let bn2 ← ofBytes x2 fRequireMinimal
    let bn3 ← ofBytes x3 fRequireMinimal
    .ok (boolValue (decide (bn2 ≤ bn1) && decide (bn1 < bn3)) :: rest)
  | .OP_1ADD, _ | .OP_1SUB, _ | .OP_NEGATE, _ | .OP_ABS, _ | .OP_NOT, _ | .OP_0NOTEQUAL, _
  | .OP_WITHIN, _ => .error .INVALID_STACK_OPERATION
  | _, x2 :: x1 :: rest => do
    let bn1 ← ofBytes x1 fRequireMinimal
    let bn2 ← ofBytes x2 fRequireMinimal
    let bn := serialize (onNumbers op bn1 bn2)
    if op = .OP_NUMEQUALVERIFY then
      if castToBool bn then .ok rest else .error .NUMEQUALVERIFY
    else .ok (bn :: rest)
  | _, _ => .error .INVALID_STACK_OPERATION

/-- The hash operations (`interpreter.cpp:752-776`). -/
def hashValue (env : ScriptEnv) (op : Op) : List valtype → Except ScriptError (List valtype)
  | [] => .error .INVALID_STACK_OPERATION
  | vch :: stack =>
    .ok ((match op with
      | .OP_RIPEMD160 => env.ripemd160 vch
      | .OP_SHA1 => env.sha1 vch
      | .OP_SHA256 => env.sha256 vch
      | .OP_HASH160 => env.ripemd160 (env.sha256 vch)
      | _ => env.sha256 (env.sha256 vch)) :: stack)

namespace ScriptMachine

/-- Works on the main stack. -/
def onStack (m : ScriptMachine) (work : List valtype → Except ScriptError (List valtype)) :
    Except ScriptError ScriptMachine :=
  (work m.stack).map fun stack => { m with stack }

/-- The `switch` of `EvalScript` (`interpreter.cpp:302-783`) on the opcodes from `OP_NOP` on that
check no signatures; `rest` is the script from `pc` on. -/
def execOp (env : ScriptEnv) (flags : UInt32) (op : Op) (rest : CScript) (m : ScriptMachine) :
    Except ScriptError ScriptMachine :=
  let fRequireMinimal := hasFlag flags SCRIPT_VERIFY_MINIMALDATA
  match op with
  | .OP_NOP => .ok m
  | .OP_NOP1 | .OP_NOP2 | .OP_NOP3 | .OP_NOP4 | .OP_NOP5 | .OP_NOP6 | .OP_NOP7 | .OP_NOP8
  | .OP_NOP9 | .OP_NOP10 =>
    if hasFlag flags SCRIPT_VERIFY_DISCOURAGE_UPGRADABLE_NOPS then
      .error .DISCOURAGE_UPGRADABLE_NOPS
    else .ok m
  | .OP_IF => m.opIf false
  | .OP_NOTIF => m.opIf true
  | .OP_ELSE => m.opElse
  | .OP_ENDIF => m.opEndIf
  | .OP_VERIFY => m.opVerify
  | .OP_RETURN => .error .OP_RETURN
  | .OP_TOALTSTACK => m.opToAltStack
  | .OP_FROMALTSTACK => m.opFromAltStack
  | .OP_2DROP | .OP_2DUP | .OP_3DUP | .OP_2OVER | .OP_2ROT | .OP_2SWAP | .OP_IFDUP | .OP_DEPTH
  | .OP_DROP | .OP_DUP | .OP_NIP | .OP_OVER | .OP_ROT | .OP_SWAP | .OP_TUCK | .OP_SIZE =>
    m.onStack (moveValues op)
  | .OP_PICK => m.onStack (pickValue fRequireMinimal false)
  | .OP_ROLL => m.onStack (pickValue fRequireMinimal true)
  | .OP_EQUAL => m.onStack (compareValues false)
  | .OP_EQUALVERIFY => m.onStack (compareValues true)
  | .OP_1ADD | .OP_1SUB | .OP_NEGATE | .OP_ABS | .OP_NOT | .OP_0NOTEQUAL | .OP_ADD | .OP_SUB
  | .OP_BOOLAND | .OP_BOOLOR | .OP_NUMEQUAL | .OP_NUMEQUALVERIFY | .OP_NUMNOTEQUAL
  | .OP_LESSTHAN | .OP_GREATERTHAN | .OP_LESSTHANOREQUAL | .OP_GREATERTHANOREQUAL | .OP_MIN
  | .OP_MAX | .OP_WITHIN => m.onStack (computeNumber op fRequireMinimal)
  | .OP_RIPEMD160 | .OP_SHA1 | .OP_SHA256 | .OP_HASH160 | .OP_HASH256 =>
    m.onStack (hashValue env op)
  | .OP_CODESEPARATOR => .ok { m with codehash := rest }
  | _ => .error .BAD_OPCODE

/-! ## Operations that check signatures -/

/-- A call of the signature checker. -/
def callChecker (env : ScriptEnv) (vchSig vchPubKey : valtype) (scriptCode : CScript) :
    Checking Bool :=
  call fun calls =>
    match env.checkSig calls vchSig vchPubKey scriptCode with
    | some success => .ok success
    | none => .error .UNKNOWN_ERROR

/-- The script that is signed, without the signatures. -/
def signedCode (m : ScriptMachine) (sigs : List valtype) : CScript :=
  sigs.foldl (fun code vchSig => (code.findAndDelete (CScript.pushData vchSig)).2) m.codehash

/-- The result of a check on the stack, or the end of the verifying form. -/
def pushResult (m : ScriptMachine) (success : Bool) (failure : Option ScriptError) :
    Except ScriptError ScriptMachine :=
  match failure with
  | none => .ok (m.push (boolValue success))
  | some error => if success then .ok m else .error error

/-- `OP_CHECKSIG`, and `OP_CHECKSIGVERIFY` with its error (`interpreter.cpp:785-818`). -/
def opCheckSig (env : ScriptEnv) (flags : UInt32) (failure : Option ScriptError)
    (m : ScriptMachine) : Checking ScriptMachine :=
  match m.stack with
  | vchPubKey :: vchSig :: stack => do
    let scriptCode := m.signedCode [vchSig]
    lift (checkSignatureEncoding flags vchSig)
    lift (checkPubKeyEncoding flags vchPubKey)
    let success ← callChecker env vchSig vchPubKey scriptCode
    lift (pushResult { m with stack } success failure)
  | _ => lift (.error .INVALID_STACK_OPERATION)

/-- The loop of `OP_CHECKMULTISIG` (`interpreter.cpp:858-887`), by the keys that are left: it ends
when no signature is left or more signatures than keys are. -/
def checkMultiSig (env : ScriptEnv) (flags : UInt32) (scriptCode : CScript) :
    List valtype → List valtype → Checking Bool
  | [], _ => pure true
  | _ :: _, [] => pure false
  | vchSig :: sigs, vchPubKey :: keys => do
    lift (checkSignatureEncoding flags vchSig)
    lift (checkPubKeyEncoding flags vchPubKey)
    let fOk ← callChecker env vchSig vchPubKey scriptCode
    let left := if fOk then sigs else vchSig :: sigs
    if left.length > keys.length then pure false
    else checkMultiSig env flags scriptCode left keys

/-- A number between 0 and a bound from the stack, with what is below it. -/
def popCount (fRequireMinimal : Bool) (limit : Int) (failure : ScriptError) :
    List valtype → Except ScriptError (Nat × List valtype)
  | [] => .error .INVALID_STACK_OPERATION
  | top :: stack => do
    let n := getint (← ofBytes top fRequireMinimal)
    failIf (decide (n < 0) || decide (n > limit)) failure
    .ok (n.toNat, stack)

/-- `OP_CHECKMULTISIG`, and `OP_CHECKMULTISIGVERIFY` with its error
(`interpreter.cpp:820-915`). The stack is the number of keys, the keys, the number of signatures,
the signatures and a value that is not used. -/
def opCheckMultiSig (env : ScriptEnv) (flags : UInt32) (failure : Option ScriptError)
    (m : ScriptMachine) : Checking ScriptMachine := do
  let fRequireMinimal := hasFlag flags SCRIPT_VERIFY_MINIMALDATA
  let (nKeysCount, stack) ←
    lift (popCount fRequireMinimal 20 .PUBKEY_COUNT m.stack)
  let nOpCount := m.nOpCount + nKeysCount
  lift (failIf (decide (nOpCount > 201)) .OP_COUNT)
  lift (failIf (decide (stack.length < nKeysCount + 1)) .INVALID_STACK_OPERATION)
  let keys := stack.take nKeysCount
  let (nSigsCount, stack) ←
    lift (popCount fRequireMinimal nKeysCount .SIG_COUNT (stack.drop nKeysCount))
  lift (failIf (decide (stack.length < nSigsCount + 1)) .INVALID_STACK_OPERATION)
  let sigs := stack.take nSigsCount
  let success ← checkMultiSig env flags (m.signedCode sigs) sigs keys
  match stack.drop nSigsCount with
  | [] => lift (.error .INVALID_STACK_OPERATION)
  | dummy :: stack =>
    lift (failIf (hasFlag flags SCRIPT_VERIFY_NULLDUMMY && !dummy.isEmpty) .SIG_NULLDUMMY)
    lift (pushResult { m with stack, nOpCount } success failure)

/-! ## The loop -/

/-- The `switch` of `EvalScript` (`interpreter.cpp:302-919`). -/
def execOpcode (env : ScriptEnv) (flags : UInt32) (opcode : UInt8) (rest : CScript)
    (m : ScriptMachine) : Checking ScriptMachine :=
  if opcode = CScript.OP_1NEGATE ∨ (CScript.OP_1 ≤ opcode ∧ opcode ≤ CScript.OP_16) then
    pure (m.push (serialize ((opcode.toNat : Int) - 0x50)))
  else
    match Op.ofByte opcode with
    | some .OP_CHECKSIG => m.opCheckSig env flags none
    | some .OP_CHECKSIGVERIFY => m.opCheckSig env flags (some .CHECKSIGVERIFY)
    | some .OP_CHECKMULTISIG => m.opCheckMultiSig env flags none
    | some .OP_CHECKMULTISIGVERIFY =>
      m.opCheckMultiSig env flags (some .CHECKMULTISIGVERIFY)
    | some op => lift (m.execOp env flags op rest)
    | none => lift (.error .BAD_OPCODE)

/-- What comes before an operation (`interpreter.cpp:272-294`): the count of operations. -/
def countOp (opcode : UInt8) (vchPushValue : valtype) (m : ScriptMachine) :
    Except ScriptError ScriptMachine := do
  failIf (decide (vchPushValue.length > 520)) .PUSH_SIZE
  let nOpCount := if opcode > CScript.OP_16 then m.nOpCount + 1 else m.nOpCount
  failIf (decide (opcode > CScript.OP_16) && decide (nOpCount > 201)) .OP_COUNT
  failIf ((Op.ofByte opcode).any fun op => Op.disabled.contains op) .DISABLED_OPCODE
  .ok { m with nOpCount }

/-- What an opcode does (`interpreter.cpp:296-919`): where the machine does not execute, only the
opcodes from `OP_IF` to `OP_ENDIF` do something. -/
def perform (env : ScriptEnv) (flags : UInt32) (opcode : UInt8) (vchPushValue : valtype)
    (rest : CScript) (m : ScriptMachine) : Checking ScriptMachine :=
  if m.fExec ∧ opcode ≤ CScript.OP_PUSHDATA4 then
    lift ((failIf (hasFlag flags SCRIPT_VERIFY_MINIMALDATA &&
      !checkMinimalPush vchPushValue opcode) .MINIMALDATA).map fun _ => m.push vchPushValue)
  else if m.fExec ∨ (0x63 ≤ opcode ∧ opcode ≤ 0x68) then execOpcode env flags opcode rest m
  else pure m

/-- One turn of the loop of `EvalScript` (`interpreter.cpp:264-924`); `rest` is the script from
`pc` on. -/
def step (env : ScriptEnv) (flags : UInt32) (opcode : UInt8) (vchPushValue : valtype)
    (rest : CScript) (m : ScriptMachine) : Checking ScriptMachine := do
  let m ← lift (countOp opcode vchPushValue m)
  let m ← perform env flags opcode vchPushValue rest m
  lift (failIf (decide (m.stack.length + m.altstack.length > 1000)) .STACK_SIZE)
  pure m

/-- The loop of `EvalScript`, from `pc` on; every turn reads a byte. -/
def run (env : ScriptEnv) (flags : UInt32) : Nat → CScript → ScriptMachine → Checking ScriptMachine
  | 0, pc, m => if pc.isEmpty then pure m else lift (.error .UNKNOWN_ERROR)
  | fuel + 1, pc, m =>
    if pc.isEmpty then pure m
    else
      match pc.readOp with
      | none => lift (.error .BAD_OPCODE)
      | some (opcode, vchPushValue, rest) => do
        let m ← m.step env flags opcode vchPushValue rest
        run env flags fuel rest m

end ScriptMachine

/-- `EvalScript` (`interpreter.cpp:238-935`), with the stack it leaves where it succeeds. -/
def evalScript (env : ScriptEnv) (flags : UInt32) (script : CScript) (stack : List valtype) :
    Checking (List valtype) := do
  lift (failIf (decide (script.length > 10000)) .SCRIPT_SIZE)
  let m ← ScriptMachine.run env flags script.length script { stack, codehash := script }
  lift (failIf (!m.vfExec.isEmpty) .UNBALANCED_CONDITIONAL)
  pure m.stack

/-- The check that a script has left something true (`interpreter.cpp:1103-1107`). -/
def leavesTrue (stack : List valtype) : Except ScriptError Unit :=
  match stack with
  | [] => .error .EVAL_FALSE
  | top :: _ => failIf (!castToBool top) .EVAL_FALSE

/-- The script hash part of `VerifyScript` (`interpreter.cpp:1112-1133`), with the stack that
`scriptSig` has left. -/
def verifyScriptHash (env : ScriptEnv) (flags : UInt32) (scriptSig : CScript)
    (stackCopy : List valtype) : Checking Unit := do
  lift (failIf (!scriptSig.isPushOnly) .SIG_PUSHONLY)
  match stackCopy with
  | [] => lift (.error .assertion)
  | pubKeySerialized :: stackCopy =>
    let stackCopy ← evalScript env flags pubKeySerialized stackCopy
    lift (leavesTrue stackCopy)

/-- `VerifyScript` (`interpreter.cpp:1086-1137`). -/
def verifyScript (env : ScriptEnv) (flags : UInt32) (scriptSig scriptPubKey : CScript) :
    Checking Unit := do
  lift (failIf (hasFlag flags SCRIPT_VERIFY_SIGPUSHONLY && !scriptSig.isPushOnly)
    .SIG_PUSHONLY)
  let stackCopy ← evalScript env flags scriptSig []
  let stack ← evalScript env flags scriptPubKey stackCopy
  lift (leavesTrue stack)
  if hasFlag flags SCRIPT_VERIFY_P2SH ∧ scriptPubKey.isPayToScriptHash then
    verifyScriptHash env flags scriptSig stackCopy
  else pure ()

end Esbcoin
