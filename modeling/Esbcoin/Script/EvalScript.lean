import Esbcoin.Script.Interpreter

/-!
# Stack positions

`EvalScript` (`src/script/interpreter.cpp:238-935`) as it reaches into its stacks: `stacktop`,
`popstack`, `erase`, `insert` and `swap` at positions that may not exist, and the arithmetic of
`CScriptNum` with its assertions. What the `catch` around the loop sees is kept apart from what the
loop returns. A stack is a list with the top first, so that position `-i` is element `i - 1`.
-/

namespace Esbcoin

open Counted CScriptNum

/-- What the `catch` of `EvalScript` sees. -/
inductive Thrown where
  /-- `vector::at` (`interpreter.cpp:58-59`). -/
  | outOfRange
  /-- `popstack` (`interpreter.cpp:60-65`). -/
  | stackEmpty
  /-- `scriptnum_error` (`script/script.h:171-176`). -/
  | scriptNum
deriving DecidableEq, Repr

/-- How `EvalScript` ends, other than with a stack. -/
inductive Exit where
  /-- `return set_error(serror, ..)`. -/
  | returned (serror : ScriptError)
  /-- An exception. -/
  | thrown (what : Thrown)
  /-- An iterator outside of the stack, or an overflow. -/
  | undefined
  /-- An `assert` that fails. -/
  | assertion
  /-- A loop that has not ended. -/
  | unfinished
deriving DecidableEq, Repr

/-- A part of `EvalScript`. -/
abbrev Eval (α : Type) := Except Exit α

/-- A part of `EvalScript` that may call the signature checker. -/
abbrev EvalChecking (α : Type) := Counted Exit α

/-- The hash functions and the signature checker, which answers by how often it has been called. -/
structure EvalEnv where
  ripemd160 : valtype → valtype
  sha1 : valtype → valtype
  sha256 : valtype → valtype
  /-- `checker.CheckSig(vchSig, vchPubKey, scriptCode)`. -/
  checkSig : Nat → valtype → valtype → CScript → Bool

namespace Eval

/-- `set_error`, and the return behind it. -/
def setError {α : Type} (serror : ScriptError) : Eval α := .error (.returned serror)

/-- Returns with an error if something is wrong. -/
def rejectIf (wrong : Prop) [Decidable wrong] (serror : ScriptError) : Eval Unit :=
  if wrong then setError serror else .ok ()

/-- A check that returns with its error. -/
def ofExcept {α : Type} : Except ScriptError α → Eval α
  | .ok a => .ok a
  | .error serror => setError serror

/-! ## Positions -/

/-- The size of a stack as an `int`. -/
def intSize (stack : List valtype) : Int := (BitVec.ofNat 32 stack.length).toInt

/-- `stacktop(i)` (`interpreter.cpp:58`): `stack.at(stack.size() + i)`. -/
def stacktop (stack : List valtype) : Int → Eval valtype
  | .ofNat _ => .error (.thrown .outOfRange)
  | .negSucc i =>
    match stack[i]? with
    | some vch => .ok vch
    | none => .error (.thrown .outOfRange)

/-- `popstack(stack)` (`interpreter.cpp:60-65`). -/
def popstack : List valtype → Eval (List valtype)
  | [] => .error (.thrown .stackEmpty)
  | _ :: stack => .ok stack

/-- `while (i-- > 1) popstack(stack)` (`interpreter.cpp:890-891`), so many times. -/
def popstacks : Nat → List valtype → Eval (List valtype)
  | 0, stack => .ok stack
  | count + 1, stack => do popstacks count (← popstack stack)

/-- `stack.erase(stack.end() - first, stack.end() - last)`. -/
def erase (stack : List valtype) (first last : Nat) : Eval (List valtype) :=
  if last ≤ first ∧ first ≤ stack.length then .ok (stack.take last ++ stack.drop first)
  else .error .undefined

/-- `vector::insert`. -/
def insert (stack : List valtype) (place : Nat) (vch : valtype) : Eval (List valtype) :=
  if place ≤ stack.length then .ok (stack.take place ++ vch :: stack.drop place)
  else .error .undefined

/-- `swap` of two positions from the top. -/
def swap (stack : List valtype) (i j : Nat) : Eval (List valtype) := do
  let vch1 ← stacktop stack (-i)
  let vch2 ← stacktop stack (-j)
  .ok ((stack.set (i - 1) vch2).set (j - 1) vch1)

/-! ## Script numbers -/

/-- `CScriptNum(vch, fRequireMinimal)` (`script/script.h:199-221`). -/
def scriptNum (vch : valtype) (fRequireMinimal : Bool) : Eval Int :=
  match ofBytes vch fRequireMinimal with
  | .ok m_value => .ok m_value
  | .error _ => .error (.thrown .scriptNum)

/-- A sum that fits in 64 bits. -/
def int64 (n : Int) : Eval Int := if -2 ^ 63 ≤ n ∧ n < 2 ^ 63 then .ok n else .error .undefined

/-- `operator+=` (`script/script.h:259-265`). -/
def addAssign (m_value rhs : Int) : Eval Int :=
  if rhs = 0 ∨ (rhs > 0 ∧ m_value ≤ 2 ^ 63 - 1 - rhs) ∨ (rhs < 0 ∧ m_value ≥ -2 ^ 63 - rhs) then
    int64 (m_value + rhs)
  else .error .assertion

/-- `operator-=` (`script/script.h:267-273`). -/
def subAssign (m_value rhs : Int) : Eval Int :=
  if rhs = 0 ∨ (rhs > 0 ∧ m_value ≥ -2 ^ 63 + rhs) ∨ (rhs < 0 ∧ m_value ≤ 2 ^ 63 - 1 + rhs) then
    int64 (m_value - rhs)
  else .error .assertion

/-- `operator-()` (`script/script.h:247-251`). -/
def negate (m_value : Int) : Eval Int :=
  if m_value ≠ -2 ^ 63 then int64 (-m_value) else .error .assertion

/-- The operations on one number (`interpreter.cpp:660-669`). -/
def onNumber (op : Op) (bn : Int) : Eval Int :=
  match op with
  | .OP_1ADD => addAssign bn 1
  | .OP_1SUB => subAssign bn 1
  | .OP_NEGATE => negate bn
  | .OP_ABS => if bn < 0 then negate bn else .ok bn
  | .OP_NOT => .ok (if bn = 0 then 1 else 0)
  | .OP_0NOTEQUAL => .ok (if bn ≠ 0 then 1 else 0)
  | _ => .error .assertion

/-- The operations on two numbers (`interpreter.cpp:694-717`). -/
def onNumbers (op : Op) (bn1 bn2 : Int) : Eval Int :=
  let truth (value : Prop) [Decidable value] : Eval Int := .ok (if value then 1 else 0)
  match op with
  | .OP_ADD => int64 (bn1 + bn2)
  | .OP_SUB => int64 (bn1 - bn2)
  | .OP_BOOLAND => truth (bn1 ≠ 0 ∧ bn2 ≠ 0)
  | .OP_BOOLOR => truth (bn1 ≠ 0 ∨ bn2 ≠ 0)
  | .OP_NUMEQUAL | .OP_NUMEQUALVERIFY => truth (bn1 = bn2)
  | .OP_NUMNOTEQUAL => truth (bn1 ≠ bn2)
  | .OP_LESSTHAN => truth (bn1 < bn2)
  | .OP_GREATERTHAN => truth (bn1 > bn2)
  | .OP_LESSTHANOREQUAL => truth (bn1 ≤ bn2)
  | .OP_GREATERTHANOREQUAL => truth (bn1 ≥ bn2)
  | .OP_MIN => .ok (if bn1 < bn2 then bn1 else bn2)
  | .OP_MAX => .ok (if bn1 > bn2 then bn1 else bn2)
  | _ => .error .assertion

/-! ## Operations on the stack -/

/-- `stack.size() < n`, with its error. -/
def needs (stack : List valtype) (n : Nat) : Eval Unit :=
  rejectIf (stack.length < n) .INVALID_STACK_OPERATION

/-- The operations that only move values (`interpreter.cpp:425-611`), and `OP_DEPTH` and
`OP_SIZE`. -/
def moveValues (op : Op) (stack : List valtype) : Eval (List valtype) :=
  match op with
  | .OP_2DROP => do
    needs stack 2
    popstack (← popstack stack)
  | .OP_2DUP => do
    needs stack 2
    let vch1 ← stacktop stack (-2)
    let vch2 ← stacktop stack (-1)
    .ok (vch2 :: vch1 :: stack)
  | .OP_3DUP => do
    needs stack 3
    let vch1 ← stacktop stack (-3)
    let vch2 ← stacktop stack (-2)
    let vch3 ← stacktop stack (-1)
    .ok (vch3 :: vch2 :: vch1 :: stack)
  | .OP_2OVER => do
    needs stack 4
    let vch1 ← stacktop stack (-4)
    let vch2 ← stacktop stack (-3)
    .ok (vch2 :: vch1 :: stack)
  | .OP_2ROT => do
    needs stack 6
    let vch1 ← stacktop stack (-6)
    let vch2 ← stacktop stack (-5)
    let stack ← erase stack 6 4
    .ok (vch2 :: vch1 :: stack)
  | .OP_2SWAP => do
    needs stack 4
    swap (← swap stack 4 2) 3 1
  | .OP_IFDUP => do
    needs stack 1
    let vch ← stacktop stack (-1)
    .ok (if castToBool vch then vch :: stack else stack)
  | .OP_DEPTH => .ok (serialize stack.length :: stack)
  | .OP_DROP => do
    needs stack 1
    popstack stack
  | .OP_DUP => do
    needs stack 1
    let vch ← stacktop stack (-1)
    .ok (vch :: stack)
  | .OP_NIP => do
    needs stack 2
    erase stack 2 1
  | .OP_OVER => do
    needs stack 2
    let vch ← stacktop stack (-2)
    .ok (vch :: stack)
  | .OP_ROT => do
    needs stack 3
    swap (← swap stack 3 2) 2 1
  | .OP_SWAP => do
    needs stack 2
    swap stack 2 1
  | .OP_TUCK => do
    needs stack 2
    let vch ← stacktop stack (-1)
    insert stack 2 vch
  | .OP_SIZE => do
    needs stack 1
    let vch ← stacktop stack (-1)
    .ok (serialize vch.length :: stack)
  | _ => setError .INVALID_STACK_OPERATION

/-- `OP_PICK` and `OP_ROLL` (`interpreter.cpp:553-569`). -/
def pickValue (fRequireMinimal fRoll : Bool) (stack : List valtype) : Eval (List valtype) := do
  needs stack 2
  let n := getint (← scriptNum (← stacktop stack (-1)) fRequireMinimal)
  let stack ← popstack stack
  rejectIf (n < 0 ∨ n ≥ intSize stack) .INVALID_STACK_OPERATION
  let vch ← stacktop stack (-n - 1)
  let stack ← if fRoll then erase stack (n + 1).toNat n.toNat else .ok stack
  .ok (vch :: stack)

/-- `OP_EQUAL` and `OP_EQUALVERIFY` (`interpreter.cpp:617-643`). -/
def compareValues (verify : Bool) (stack : List valtype) : Eval (List valtype) := do
  needs stack 2
  let vch1 ← stacktop stack (-2)
  let vch2 ← stacktop stack (-1)
  let fEqual := vch1 == vch2
  let stack := boolValue fEqual :: (← popstack (← popstack stack))
  if verify then if fEqual then popstack stack else setError .EQUALVERIFY
  else .ok stack

/-- The operations on one number (`interpreter.cpp:649-673`). -/
def unaryNumber (op : Op) (fRequireMinimal : Bool) (stack : List valtype) :
    Eval (List valtype) := do
  needs stack 1
  let bn ← scriptNum (← stacktop stack (-1)) fRequireMinimal
  let bn ← onNumber op bn
  .ok (serialize bn :: (← popstack stack))

/-- The operations on two numbers (`interpreter.cpp:675-730`). -/
def binaryNumber (op : Op) (fRequireMinimal : Bool) (stack : List valtype) :
    Eval (List valtype) := do
  needs stack 2
  let bn1 ← scriptNum (← stacktop stack (-2)) fRequireMinimal
  let bn2 ← scriptNum (← stacktop stack (-1)) fRequireMinimal
  let bn ← onNumbers op bn1 bn2
  let stack := serialize bn :: (← popstack (← popstack stack))
  if op = .OP_NUMEQUALVERIFY then
    if castToBool (← stacktop stack (-1)) then popstack stack else setError .NUMEQUALVERIFY
  else .ok stack

/-- `OP_WITHIN` (`interpreter.cpp:732-746`). -/
def withinNumbers (fRequireMinimal : Bool) (stack : List valtype) : Eval (List valtype) := do
  needs stack 3
  let bn1 ← scriptNum (← stacktop stack (-3)) fRequireMinimal
  let bn2 ← scriptNum (← stacktop stack (-2)) fRequireMinimal
  let bn3 ← scriptNum (← stacktop stack (-1)) fRequireMinimal
  let fValue := decide (bn2 ≤ bn1) && decide (bn1 < bn3)
  .ok (boolValue fValue :: (← popstack (← popstack (← popstack stack))))

/-- The hash operations (`interpreter.cpp:752-776`). -/
def hashValue (env : EvalEnv) (op : Op) (stack : List valtype) : Eval (List valtype) := do
  needs stack 1
  let vch ← stacktop stack (-1)
  let vchHash := match op with
    | .OP_RIPEMD160 => env.ripemd160 vch
    | .OP_SHA1 => env.sha1 vch
    | .OP_SHA256 => env.sha256 vch
    | .OP_HASH160 => env.ripemd160 (env.sha256 vch)
    | _ => env.sha256 (env.sha256 vch)
  .ok (vchHash :: (← popstack stack))

/-! ## Operations on the machine -/

/-- Works on the main stack. -/
def onStack (m : ScriptMachine) (work : List valtype → Eval (List valtype)) :
    Eval ScriptMachine := do
  let stack ← work m.stack
  .ok { m with stack }

/-- `OP_IF` and `OP_NOTIF` (`interpreter.cpp:348-365`). -/
def opIf (negated : Bool) (m : ScriptMachine) : Eval ScriptMachine :=
  if m.fExec then do
    rejectIf (m.stack.length < 1) .UNBALANCED_CONDITIONAL
    let fValue := castToBool (← stacktop m.stack (-1))
    let fValue := if negated then !fValue else fValue
    let stack ← popstack m.stack
    .ok { m with stack, vfExec := fValue :: m.vfExec }
  else .ok { m with vfExec := false :: m.vfExec }

/-- `OP_ELSE` (`interpreter.cpp:367-373`): `vfExec.back()` where there is one. -/
def opElse (m : ScriptMachine) : Eval ScriptMachine := do
  rejectIf (m.vfExec.isEmpty = true) .UNBALANCED_CONDITIONAL
  match m.vfExec with
  | [] => .error .undefined
  | back :: vfExec => .ok { m with vfExec := (!back) :: vfExec }

/-- `OP_ENDIF` (`interpreter.cpp:375-381`). -/
def opEndIf (m : ScriptMachine) : Eval ScriptMachine := do
  rejectIf (m.vfExec.isEmpty = true) .UNBALANCED_CONDITIONAL
  match m.vfExec with
  | [] => .error .undefined
  | _ :: vfExec => .ok { m with vfExec }

/-- `OP_VERIFY` (`interpreter.cpp:383-395`). -/
def opVerify (m : ScriptMachine) : Eval ScriptMachine := do
  needs m.stack 1
  let fValue := castToBool (← stacktop m.stack (-1))
  if fValue then onStack m popstack else setError .VERIFY

/-- `OP_TOALTSTACK` (`interpreter.cpp:407-414`). -/
def opToAltStack (m : ScriptMachine) : Eval ScriptMachine := do
  needs m.stack 1
  let vch ← stacktop m.stack (-1)
  let stack ← popstack m.stack
  .ok { m with stack, altstack := vch :: m.altstack }

/-- `OP_FROMALTSTACK` (`interpreter.cpp:416-423`). -/
def opFromAltStack (m : ScriptMachine) : Eval ScriptMachine := do
  rejectIf (m.altstack.length < 1) .INVALID_ALTSTACK_OPERATION
  let vch ← stacktop m.altstack (-1)
  let altstack ← popstack m.altstack
  .ok { m with stack := vch :: m.stack, altstack }

/-- The `switch` (`interpreter.cpp:302-783`) on the opcodes from `OP_NOP` on that check no
signatures; `rest` is the script from `pc` on. -/
def execOp (env : EvalEnv) (flags : UInt32) (op : Op) (rest : CScript) (m : ScriptMachine) :
    Eval ScriptMachine :=
  let fRequireMinimal := hasFlag flags SCRIPT_VERIFY_MINIMALDATA
  match op with
  | .OP_NOP => .ok m
  | .OP_NOP1 | .OP_NOP2 | .OP_NOP3 | .OP_NOP4 | .OP_NOP5 | .OP_NOP6 | .OP_NOP7 | .OP_NOP8
  | .OP_NOP9 | .OP_NOP10 =>
    if hasFlag flags SCRIPT_VERIFY_DISCOURAGE_UPGRADABLE_NOPS then
      setError .DISCOURAGE_UPGRADABLE_NOPS
    else .ok m
  | .OP_IF => opIf false m
  | .OP_NOTIF => opIf true m
  | .OP_ELSE => opElse m
  | .OP_ENDIF => opEndIf m
  | .OP_VERIFY => opVerify m
  | .OP_RETURN => setError .OP_RETURN
  | .OP_TOALTSTACK => opToAltStack m
  | .OP_FROMALTSTACK => opFromAltStack m
  | .OP_2DROP | .OP_2DUP | .OP_3DUP | .OP_2OVER | .OP_2ROT | .OP_2SWAP | .OP_IFDUP | .OP_DEPTH
  | .OP_DROP | .OP_DUP | .OP_NIP | .OP_OVER | .OP_ROT | .OP_SWAP | .OP_TUCK | .OP_SIZE =>
    onStack m (moveValues op)
  | .OP_PICK => onStack m (pickValue fRequireMinimal false)
  | .OP_ROLL => onStack m (pickValue fRequireMinimal true)
  | .OP_EQUAL => onStack m (compareValues false)
  | .OP_EQUALVERIFY => onStack m (compareValues true)
  | .OP_1ADD | .OP_1SUB | .OP_NEGATE | .OP_ABS | .OP_NOT | .OP_0NOTEQUAL =>
    onStack m (unaryNumber op fRequireMinimal)
  | .OP_ADD | .OP_SUB | .OP_BOOLAND | .OP_BOOLOR | .OP_NUMEQUAL | .OP_NUMEQUALVERIFY
  | .OP_NUMNOTEQUAL | .OP_LESSTHAN | .OP_GREATERTHAN | .OP_LESSTHANOREQUAL
  | .OP_GREATERTHANOREQUAL | .OP_MIN | .OP_MAX =>
    onStack m (binaryNumber op fRequireMinimal)
  | .OP_WITHIN => onStack m (withinNumbers fRequireMinimal)
  | .OP_RIPEMD160 | .OP_SHA1 | .OP_SHA256 | .OP_HASH160 | .OP_HASH256 =>
    onStack m (hashValue env op)
  | .OP_CODESEPARATOR => .ok { m with codehash := rest }
  | _ => setError .BAD_OPCODE

/-! ## Operations that check signatures -/

/-- `checker.CheckSig(vchSig, vchPubKey, scriptCode)`. -/
def callChecker (env : EvalEnv) (vchSig vchPubKey : valtype) (scriptCode : CScript) :
    EvalChecking Bool :=
  call fun calls => .ok (env.checkSig calls vchSig vchPubKey scriptCode)

/-- The result of a check on the stack, and the end of the verifying form
(`interpreter.cpp:809-817`, `:905-913`). -/
def pushResult (fSuccess : Bool) (failure : Option ScriptError) (stack : List valtype) :
    Eval (List valtype) :=
  let stack := boolValue fSuccess :: stack
  match failure with
  | none => .ok stack
  | some serror => if fSuccess then popstack stack else setError serror

/-- `OP_CHECKSIG`, and `OP_CHECKSIGVERIFY` with its error (`interpreter.cpp:785-818`). -/
def opCheckSig (env : EvalEnv) (flags : UInt32) (failure : Option ScriptError)
    (m : ScriptMachine) : EvalChecking ScriptMachine := do
  lift (needs m.stack 2)
  let vchSig ← lift (stacktop m.stack (-2))
  let vchPubKey ← lift (stacktop m.stack (-1))
  let scriptCode := (m.codehash.findAndDelete (CScript.pushData vchSig)).2
  lift (ofExcept (checkSignatureEncoding flags vchSig))
  lift (ofExcept (checkPubKeyEncoding flags vchPubKey))
  let fSuccess ← callChecker env vchSig vchPubKey scriptCode
  let stack ← lift (popstack m.stack)
  let stack ← lift (popstack stack)
  let stack ← lift (pushResult fSuccess failure stack)
  pure { m with stack }

/-- Drop the signatures from `scriptCode` (`interpreter.cpp:850-856`), from `k` on. -/
def dropSignatures (stack : List valtype) (isig : Int) : Nat → Nat → CScript → Eval CScript
  | 0, _, scriptCode => .ok scriptCode
  | more + 1, k, scriptCode => do
    let vchSig ← stacktop stack (-isig - k)
    dropSignatures stack isig more (k + 1) (scriptCode.findAndDelete (CScript.pushData vchSig)).2

/-- `while (fSuccess && nSigsCount > 0)` (`interpreter.cpp:858-887`); every turn takes a key. -/
def multiSigLoop (env : EvalEnv) (flags : UInt32) (stack : List valtype) (scriptCode : CScript) :
    Nat → Int → Int → Int → Int → EvalChecking Bool
  | 0, _, _, _, _ => lift (.error .unfinished)
  | fuel + 1, isig, nSigsCount, ikey, nKeysCount =>
    if nSigsCount > 0 then do
      let vchSig ← lift (stacktop stack (-isig))
      let vchPubKey ← lift (stacktop stack (-ikey))
      lift (ofExcept (checkSignatureEncoding flags vchSig))
      lift (ofExcept (checkPubKeyEncoding flags vchPubKey))
      let fOk ← callChecker env vchSig vchPubKey scriptCode
      let isig := if fOk then isig + 1 else isig
      let nSigsCount := if fOk then nSigsCount - 1 else nSigsCount
      if nSigsCount > nKeysCount - 1 then pure false
      else multiSigLoop env flags stack scriptCode fuel isig nSigsCount (ikey + 1) (nKeysCount - 1)
    else pure true

/-- `OP_CHECKMULTISIG`, and `OP_CHECKMULTISIGVERIFY` with its error
(`interpreter.cpp:820-915`). -/
def opCheckMultiSig (env : EvalEnv) (flags : UInt32) (failure : Option ScriptError)
    (m : ScriptMachine) : EvalChecking ScriptMachine := do
  let fRequireMinimal := hasFlag flags SCRIPT_VERIFY_MINIMALDATA
  let i : Int := 1
  lift (rejectIf (intSize m.stack < i) .INVALID_STACK_OPERATION)
  let vch ← lift (stacktop m.stack (-i))
  let nKeysCount := getint (← lift (scriptNum vch fRequireMinimal))
  lift (rejectIf (nKeysCount < 0 ∨ nKeysCount > 20) .PUBKEY_COUNT)
  let nOpCount := m.nOpCount + nKeysCount
  lift (rejectIf (nOpCount > 201) .OP_COUNT)
  let ikey := i + 1
  let i := ikey + nKeysCount
  lift (rejectIf (intSize m.stack < i) .INVALID_STACK_OPERATION)
  let vch ← lift (stacktop m.stack (-i))
  let nSigsCount := getint (← lift (scriptNum vch fRequireMinimal))
  lift (rejectIf (nSigsCount < 0 ∨ nSigsCount > nKeysCount) .SIG_COUNT)
  let isig := i + 1
  let i := isig + nSigsCount
  lift (rejectIf (intSize m.stack < i) .INVALID_STACK_OPERATION)
  let scriptCode ← lift (dropSignatures m.stack isig nSigsCount.toNat 0 m.codehash)
  let fSuccess ←
    multiSigLoop env flags m.stack scriptCode (nKeysCount.toNat + 1) isig nSigsCount ikey nKeysCount
  let stack ← lift (popstacks (i - 1).toNat m.stack)
  lift (needs stack 1)
  let dummy ← lift (stacktop stack (-1))
  lift (rejectIf (hasFlag flags SCRIPT_VERIFY_NULLDUMMY = true ∧ dummy ≠ []) .SIG_NULLDUMMY)
  let stack ← lift (popstack stack)
  let stack ← lift (pushResult fSuccess failure stack)
  pure { m with stack, nOpCount }

/-! ## The loop -/

/-- The `switch` of `EvalScript` (`interpreter.cpp:302-919`). -/
def execOpcode (env : EvalEnv) (flags : UInt32) (opcode : UInt8) (rest : CScript)
    (m : ScriptMachine) : EvalChecking ScriptMachine :=
  if opcode = CScript.OP_1NEGATE ∨ (CScript.OP_1 ≤ opcode ∧ opcode ≤ CScript.OP_16) then
    pure (m.push (serialize ((opcode.toNat : Int) - 0x50)))
  else
    match Op.ofByte opcode with
    | some .OP_CHECKSIG => opCheckSig env flags none m
    | some .OP_CHECKSIGVERIFY => opCheckSig env flags (some .CHECKSIGVERIFY) m
    | some .OP_CHECKMULTISIG => opCheckMultiSig env flags none m
    | some .OP_CHECKMULTISIGVERIFY => opCheckMultiSig env flags (some .CHECKMULTISIGVERIFY) m
    | some op => lift (execOp env flags op rest m)
    | none => lift (setError .BAD_OPCODE)

/-- What comes before an operation (`interpreter.cpp:272-294`). -/
def countOp (opcode : UInt8) (vchPushValue : valtype) (m : ScriptMachine) :
    Eval ScriptMachine := do
  rejectIf (vchPushValue.length > 520) .PUSH_SIZE
  let nOpCount := if opcode > CScript.OP_16 then m.nOpCount + 1 else m.nOpCount
  rejectIf (opcode > CScript.OP_16 ∧ nOpCount > 201) .OP_COUNT
  rejectIf ((Op.ofByte opcode).any (fun op => Op.disabled.contains op) = true) .DISABLED_OPCODE
  .ok { m with nOpCount }

/-- What an opcode does (`interpreter.cpp:296-919`). -/
def perform (env : EvalEnv) (flags : UInt32) (opcode : UInt8) (vchPushValue : valtype)
    (rest : CScript) (m : ScriptMachine) : EvalChecking ScriptMachine :=
  if m.fExec ∧ opcode ≤ CScript.OP_PUSHDATA4 then do
    lift (rejectIf (hasFlag flags SCRIPT_VERIFY_MINIMALDATA = true ∧
      checkMinimalPush vchPushValue opcode = false) .MINIMALDATA)
    pure (m.push vchPushValue)
  else if m.fExec ∨ (0x63 ≤ opcode ∧ opcode ≤ 0x68) then execOpcode env flags opcode rest m
  else pure m

/-- One turn of the loop (`interpreter.cpp:264-924`), behind `GetOp`. -/
def turn (env : EvalEnv) (flags : UInt32) (opcode : UInt8) (vchPushValue : valtype)
    (rest : CScript) (m : ScriptMachine) : EvalChecking ScriptMachine := do
  let m ← lift (countOp opcode vchPushValue m)
  let m ← perform env flags opcode vchPushValue rest m
  lift (rejectIf (m.stack.length + m.altstack.length > 1000) .STACK_SIZE)
  pure m

/-- `while (pc < pend)` (`interpreter.cpp:264`), from `pc` on; every turn reads a byte. -/
def loop (env : EvalEnv) (flags : UInt32) : Nat → CScript → ScriptMachine →
    EvalChecking ScriptMachine
  | 0, pc, m => if pc.isEmpty then pure m else lift (.error .unfinished)
  | fuel + 1, pc, m =>
    if pc.isEmpty then pure m
    else
      match pc.readOp with
      | none => lift (setError .BAD_OPCODE)
      | some (opcode, vchPushValue, rest) => do
        let m ← turn env flags opcode vchPushValue rest m
        loop env flags fuel rest m

/-- The variables at the start (`interpreter.cpp:248-260`). -/
def start (script : CScript) (stack : List valtype) : ScriptMachine := { stack, codehash := script }

/-- `EvalScript` (`interpreter.cpp:238-935`) up to its `catch`, with the stack it leaves where it
succeeds. -/
def evalScript (env : EvalEnv) (flags : UInt32) (script : CScript) (stack : List valtype) :
    EvalChecking (List valtype) := do
  lift (rejectIf (script.length > 10000) .SCRIPT_SIZE)
  let m ← loop env flags script.length script (start script stack)
  lift (rejectIf (m.vfExec.isEmpty = false) .UNBALANCED_CONDITIONAL)
  pure m.stack

end Eval

end Esbcoin
