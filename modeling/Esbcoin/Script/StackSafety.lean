import Esbcoin.Script.EvalScript
import Esbcoin.Script.ScriptNum
import Esbcoin.Script.SigChecks

/-!
# Safety of the stacks

No opcode reaches a position that does not exist, whatever is on the stacks: where an operation
checks the depth first, it is the operation of `Esbcoin.Script.Interpreter` (`execOp_eq`), and where
it computes positions from numbers on the stack, they are shown to exist.
-/

namespace Esbcoin.Eval

open Counted

/-- What an error of the interpreter with patterns is: there an unknown error stands for an
exception. -/
def exitOf (serror : ScriptError) : Exit :=
  if serror = .UNKNOWN_ERROR then .thrown .scriptNum else .returned serror

/-- What an outcome of that interpreter is. -/
def embed {α : Type} : Except ScriptError α → Eval α
  | .ok a => .ok a
  | .error serror => .error (exitOf serror)

/-- The same environment for `Esbcoin.Script.Interpreter`. -/
def toScriptEnv (env : EvalEnv) : ScriptEnv where
  ripemd160 := env.ripemd160
  sha1 := env.sha1
  sha256 := env.sha256
  checkSig calls vchSig vchPubKey scriptCode :=
    some (env.checkSig calls vchSig vchPubKey scriptCode)

/-! ## Operations that check the depth -/

/-- The depth that is checked is the depth that is used. -/
theorem moveValues_eq (op : Op) (stack : List valtype) :
    moveValues op stack = embed (Esbcoin.moveValues op stack) := by
  cases op
  case OP_2DROP | OP_2DUP | OP_NIP | OP_OVER | OP_SWAP | OP_TUCK =>
    rcases stack with _ | ⟨x2, _ | ⟨x1, stack⟩⟩ <;> rfl
  case OP_3DUP | OP_ROT => rcases stack with _ | ⟨x3, _ | ⟨x2, _ | ⟨x1, stack⟩⟩⟩ <;> rfl
  case OP_2OVER | OP_2SWAP =>
    rcases stack with _ | ⟨x4, _ | ⟨x3, _ | ⟨x2, _ | ⟨x1, stack⟩⟩⟩⟩ <;> rfl
  case OP_2ROT =>
    rcases stack with _ | ⟨x6, _ | ⟨x5, _ | ⟨x4, _ | ⟨x3, _ | ⟨x2, _ | ⟨x1, stack⟩⟩⟩⟩⟩⟩ <;> rfl
  case OP_IFDUP | OP_DROP | OP_DUP | OP_SIZE => cases stack <;> rfl
  all_goals rfl

theorem compareValues_eq (verify : Bool) (stack : List valtype) :
    compareValues verify stack = embed (Esbcoin.compareValues verify stack) := by
  rcases stack with _ | ⟨x2, _ | ⟨x1, stack⟩⟩
  · rfl
  · rfl
  cases verify with
  | false => rfl
  | true =>
    have compared : compareValues true (x2 :: x1 :: stack) =
        if (x1 == x2) = true then .ok stack else setError .EQUALVERIFY := rfl
    rw [compared, Esbcoin.compareValues]
    by_cases same : x1 = x2
    · simp [same, embed]
    · simp [same, embed, exitOf, setError]

variable (env : EvalEnv)

theorem hashValue_eq (op : Op) (stack : List valtype) :
    hashValue env op stack = embed (Esbcoin.hashValue (toScriptEnv env) op stack) := by
  cases stack with
  | nil => rfl
  | cons vch stack => cases op <;> rfl

/-! ## Numbers -/

/-- A number is refused by an exception, or is that of at most four bytes. -/
theorem ofBytes_cases (vch : valtype) (fRequireMinimal : Bool) :
    CScriptNum.ofBytes vch fRequireMinimal = .error .UNKNOWN_ERROR ∨
      vch.length ≤ 4 ∧ CScriptNum.ofBytes vch fRequireMinimal = .ok (CScript.scriptNum vch) := by
  unfold CScriptNum.ofBytes
  by_cases long : vch.length > 4
  · exact .inl (if_pos long)
  · rw [if_neg long]
    exact (ite_eq_or_eq _ _ _).imp id fun kept => ⟨Nat.not_lt.mp long, kept⟩

/-- The exception of a number is the only one that an operation raises. -/
def Fair : Exit → Prop
  | .returned serror => serror ≠ .UNKNOWN_ERROR
  | .thrown what => what = .scriptNum
  | _ => False

theorem exitOf_fair (serror : ScriptError) : Fair (exitOf serror) := by
  unfold exitOf
  split
  · rfl
  · rename_i other
    exact other

theorem scriptNum_eq (vch : valtype) (fRequireMinimal : Bool) :
    scriptNum vch fRequireMinimal = embed (CScriptNum.ofBytes vch fRequireMinimal) := by
  unfold scriptNum
  rcases ofBytes_cases vch fRequireMinimal with refused | ⟨-, read⟩
  · rw [refused]
    rfl
  · rw [read]
    rfl

/-- A number that is read fits in 32 bits. -/
theorem ofBytes_bounds {vch : valtype} {fRequireMinimal : Bool} {bn : Int}
    (read : CScriptNum.ofBytes vch fRequireMinimal = .ok bn) : -2 ^ 31 < bn ∧ bn < 2 ^ 31 := by
  rcases ofBytes_cases vch fRequireMinimal with refused | ⟨short, read'⟩
  · rw [read] at refused
    cases refused
  · rw [read] at read'
    cases read'
    exact CScript.scriptNum_bounds short

theorem int64_eq {n : Int} (low : -2 ^ 63 ≤ n) (high : n < 2 ^ 63) : int64 n = .ok n :=
  if_pos ⟨low, high⟩

variable {op : Op} {m : ScriptMachine} {α : Type} {outcome : Except ScriptError α}
  {stack : List valtype}

/-- No assertion of `CScriptNum` fails on a number of 32 bits. -/
theorem onNumber_eq (unary : op ∈ [Op.OP_1ADD, .OP_1SUB, .OP_NEGATE, .OP_ABS, .OP_NOT,
    .OP_0NOTEQUAL]) {bn : Int} (low : -2 ^ 31 < bn) (high : bn < 2 ^ 31) :
    onNumber op bn = .ok (Esbcoin.onNumber op bn) := by
  have negated : negate bn = .ok (-bn) := by
    rw [negate, if_pos (by omega)]
    exact int64_eq (by omega) (by omega)
  simp only [List.mem_cons, List.not_mem_nil, or_false] at unary
  rcases unary with rfl | rfl | rfl | rfl | rfl | rfl
  · show addAssign bn 1 = .ok (bn + 1)
    rw [addAssign, if_pos (by omega)]
    exact int64_eq (by omega) (by omega)
  · show subAssign bn 1 = .ok (bn - 1)
    rw [subAssign, if_pos (by omega)]
    exact int64_eq (by omega) (by omega)
  · exact negated
  · show (if bn < 0 then negate bn else .ok bn) = .ok (if bn < 0 then -bn else bn)
    rw [negated]
    split <;> rfl
  · rfl
  · rfl

/-- The operations on two numbers. -/
def binaryOps : List Op :=
  [.OP_ADD, .OP_SUB, .OP_BOOLAND, .OP_BOOLOR, .OP_NUMEQUAL, .OP_NUMEQUALVERIFY, .OP_NUMNOTEQUAL,
    .OP_LESSTHAN, .OP_GREATERTHAN, .OP_LESSTHANOREQUAL, .OP_GREATERTHANOREQUAL, .OP_MIN, .OP_MAX]

theorem onNumbers_eq (binary : op ∈ binaryOps) {bn1 bn2 : Int} (low1 : -2 ^ 31 < bn1)
    (high1 : bn1 < 2 ^ 31) (low2 : -2 ^ 31 < bn2) (high2 : bn2 < 2 ^ 31) :
    onNumbers op bn1 bn2 = .ok (Esbcoin.onNumbers op bn1 bn2) := by
  simp only [binaryOps, List.mem_cons, List.not_mem_nil, or_false] at binary
  rcases binary with rfl | rfl | rfl | rfl | rfl | rfl | rfl | rfl | rfl | rfl | rfl | rfl | rfl
  · exact int64_eq (by omega) (by omega)
  · exact int64_eq (by omega) (by omega)
  all_goals rfl

theorem unaryNumber_eq (unary : op ∈ [Op.OP_1ADD, .OP_1SUB, .OP_NEGATE, .OP_ABS, .OP_NOT,
    .OP_0NOTEQUAL]) (fRequireMinimal : Bool) (stack : List valtype) :
    unaryNumber op fRequireMinimal stack = embed (computeNumber op fRequireMinimal stack) := by
  cases stack with
  | nil =>
    simp only [List.mem_cons, List.not_mem_nil, or_false] at unary
    rcases unary with rfl | rfl | rfl | rfl | rfl | rfl <;> rfl
  | cons x stack =>
    have low : unaryNumber op fRequireMinimal (x :: stack) =
        (do
          let bn ← onNumber op (← scriptNum x fRequireMinimal)
          .ok (CScriptNum.serialize bn :: stack)) := rfl
    have high : computeNumber op fRequireMinimal (x :: stack) =
        (do
          let bn ← CScriptNum.ofBytes x fRequireMinimal
          .ok (CScriptNum.serialize (Esbcoin.onNumber op bn) :: stack)) := by
      simp only [List.mem_cons, List.not_mem_nil, or_false] at unary
      rcases unary with rfl | rfl | rfl | rfl | rfl | rfl <;> rfl
    rw [low, high, scriptNum_eq]
    cases read : CScriptNum.ofBytes x fRequireMinimal with
    | error serror => rfl
    | ok bn =>
      obtain ⟨lowest, highest⟩ := ofBytes_bounds read
      show (onNumber op bn >>= fun bn => _) = _
      rw [onNumber_eq unary lowest highest]
      rfl

theorem binaryNumber_eq (binary : op ∈ binaryOps) (fRequireMinimal : Bool) (stack : List valtype) :
    binaryNumber op fRequireMinimal stack = embed (computeNumber op fRequireMinimal stack) := by
  rcases stack with _ | ⟨x2, _ | ⟨x1, stack⟩⟩
  · simp only [binaryOps, List.mem_cons, List.not_mem_nil, or_false] at binary
    rcases binary with rfl | rfl | rfl | rfl | rfl | rfl | rfl | rfl | rfl | rfl | rfl | rfl | rfl
      <;> rfl
  · simp only [binaryOps, List.mem_cons, List.not_mem_nil, or_false] at binary
    rcases binary with rfl | rfl | rfl | rfl | rfl | rfl | rfl | rfl | rfl | rfl | rfl | rfl | rfl
      <;> rfl
  have low : binaryNumber op fRequireMinimal (x2 :: x1 :: stack) =
      (do
        let bn1 ← scriptNum x1 fRequireMinimal
        let bn2 ← scriptNum x2 fRequireMinimal
        let bn ← onNumbers op bn1 bn2
        if op = .OP_NUMEQUALVERIFY then
          if castToBool (CScriptNum.serialize bn) then .ok stack else setError .NUMEQUALVERIFY
        else .ok (CScriptNum.serialize bn :: stack)) := rfl
  have high : computeNumber op fRequireMinimal (x2 :: x1 :: stack) =
      (do
        let bn1 ← CScriptNum.ofBytes x1 fRequireMinimal
        let bn2 ← CScriptNum.ofBytes x2 fRequireMinimal
        let bn := CScriptNum.serialize (Esbcoin.onNumbers op bn1 bn2)
        if op = .OP_NUMEQUALVERIFY then
          if castToBool bn then .ok stack else .error .NUMEQUALVERIFY
        else .ok (bn :: stack)) := by
    simp only [binaryOps, List.mem_cons, List.not_mem_nil, or_false] at binary
    rcases binary with rfl | rfl | rfl | rfl | rfl | rfl | rfl | rfl | rfl | rfl | rfl | rfl | rfl
      <;> rfl
  rw [low, high, scriptNum_eq, scriptNum_eq]
  cases read1 : CScriptNum.ofBytes x1 fRequireMinimal with
  | error serror => rfl
  | ok bn1 =>
    cases read2 : CScriptNum.ofBytes x2 fRequireMinimal with
    | error serror => rfl
    | ok bn2 =>
      obtain ⟨low1, high1⟩ := ofBytes_bounds read1
      obtain ⟨low2, high2⟩ := ofBytes_bounds read2
      show (onNumbers op bn1 bn2 >>= fun bn => _) = embed (ite _ _ _)
      rw [onNumbers_eq binary low1 high1 low2 high2]
      show ite _ _ _ = _
      split
      · split <;> rfl
      · rfl

theorem withinNumbers_eq (fRequireMinimal : Bool) (stack : List valtype) :
    withinNumbers fRequireMinimal stack = embed (computeNumber .OP_WITHIN fRequireMinimal stack) := by
  rcases stack with _ | ⟨x3, _ | ⟨x2, _ | ⟨x1, stack⟩⟩⟩
  · rfl
  · rfl
  · rfl
  have low : withinNumbers fRequireMinimal (x3 :: x2 :: x1 :: stack) =
      (do
        let bn1 ← scriptNum x1 fRequireMinimal
        let bn2 ← scriptNum x2 fRequireMinimal
        let bn3 ← scriptNum x3 fRequireMinimal
        .ok (boolValue (decide (bn2 ≤ bn1) && decide (bn1 < bn3)) :: stack)) := rfl
  rw [low, scriptNum_eq, scriptNum_eq, scriptNum_eq, computeNumber]
  cases CScriptNum.ofBytes x1 fRequireMinimal with
  | error serror => rfl
  | ok bn1 =>
    cases CScriptNum.ofBytes x2 fRequireMinimal with
    | error serror => rfl
    | ok bn2 => cases CScriptNum.ofBytes x3 fRequireMinimal <;> rfl

/-! ## Positions from numbers -/

/-- A position inside of the stack exists. -/
theorem stacktop_neg {stack : List valtype} {i : Int} (first : 1 ≤ i) (last : i ≤ stack.length) :
    ∃ vch, stacktop stack (-i) = .ok vch ∧ stack[(i - 1).toNat]? = some vch := by
  obtain ⟨n, rfl⟩ : ∃ n : Nat, i = n + 1 := ⟨(i - 1).toNat, by omega⟩
  have inside : n < stack.length := by omega
  have place : ((n : Int) + 1 - 1).toNat = n := by omega
  rw [place, ← Int.negSucc_eq, stacktop, List.getElem?_eq_getElem inside]
  exact ⟨_, rfl, rfl⟩

/-- The size as an `int` is never more than the size. -/
theorem intSize_le (stack : List valtype) : intSize stack ≤ stack.length := by
  rw [intSize, BitVec.toInt_eq_toNat_cond, BitVec.toNat_ofNat]
  split <;> omega

/-- Whatever number is on the stack, `OP_PICK` and `OP_ROLL` find the position or fail. -/
theorem pickValue_fair (fRequireMinimal fRoll : Bool) (stack : List valtype) {ending : Exit}
    (fails : pickValue fRequireMinimal fRoll stack = .error ending) : Fair ending := by
  rcases stack with _ | ⟨top, _ | ⟨x0, below⟩⟩
  · cases fails
    simp [Fair]
  · cases fails
    simp [Fair]
  have picked : pickValue fRequireMinimal fRoll (top :: x0 :: below) = (do
      let n := CScriptNum.getint (← scriptNum top fRequireMinimal)
      rejectIf (n < 0 ∨ n ≥ intSize (x0 :: below)) .INVALID_STACK_OPERATION
      let vch ← stacktop (x0 :: below) (-n - 1)
      let stack ← if fRoll then erase (x0 :: below) (n + 1).toNat n.toNat else .ok (x0 :: below)
      .ok (vch :: stack)) := rfl
  rw [picked, scriptNum_eq] at fails
  generalize x0 :: below = stack at fails
  cases read : CScriptNum.ofBytes top fRequireMinimal with
  | error serror =>
    rw [read] at fails
    cases fails
    exact exitOf_fair serror
  | ok m_value =>
    rw [read] at fails
    simp only [embed, bind, Except.bind] at fails
    generalize CScriptNum.getint m_value = n at fails
    by_cases outside : n < 0 ∨ n ≥ intSize stack
    · rw [rejectIf, if_pos outside] at fails
      cases fails
      simp [Fair]
    rw [rejectIf, if_neg outside] at fails
    have size := intSize_le stack
    obtain ⟨vch, top, -⟩ :=
      @stacktop_neg stack (n + 1) (by omega) (by omega)
    rw [show -n - 1 = -(n + 1) by omega, top] at fails
    cases fRoll with
    | false => cases fails
    | true =>
      have erased : erase stack (n + 1).toNat n.toNat =
          .ok (stack.take n.toNat ++ stack.drop (n + 1).toNat) := if_pos (by omega)
      rw [erased] at fails
      cases fails

/-! ## Operations on the machine -/

theorem onStack_eq {work : List valtype → Eval (List valtype)}
    {work' : List valtype → Except ScriptError (List valtype)}
    (same : work m.stack = embed (work' m.stack)) : onStack m work = embed (m.onStack work') := by
  unfold onStack ScriptMachine.onStack
  rw [same]
  cases work' m.stack <;> rfl

theorem opIf_eq (negated : Bool) (m : ScriptMachine) : opIf negated m = embed (m.opIf negated) := by
  obtain ⟨stack, altstack, vfExec, nOpCount, codehash⟩ := m
  unfold opIf ScriptMachine.opIf
  split
  · cases stack with
    | nil => rfl
    | cons vch stack =>
      show Except.ok _ = Except.ok _
      cases negated <;> cases castToBool vch <;> rfl
  · rfl

theorem opElse_eq (m : ScriptMachine) : opElse m = embed m.opElse := by
  obtain ⟨stack, altstack, vfExec, nOpCount, codehash⟩ := m
  cases vfExec <;> rfl

theorem opEndIf_eq (m : ScriptMachine) : opEndIf m = embed m.opEndIf := by
  obtain ⟨stack, altstack, vfExec, nOpCount, codehash⟩ := m
  cases vfExec <;> rfl

theorem opVerify_eq (m : ScriptMachine) : opVerify m = embed m.opVerify := by
  obtain ⟨stack, altstack, vfExec, nOpCount, codehash⟩ := m
  cases stack with
  | nil => rfl
  | cons vch stack =>
    show (if castToBool vch = true then _ else _) = embed (if castToBool vch = true then _ else _)
    split <;> rfl

theorem opToAltStack_eq (m : ScriptMachine) : opToAltStack m = embed m.opToAltStack := by
  obtain ⟨stack, altstack, vfExec, nOpCount, codehash⟩ := m
  cases stack <;> rfl

theorem opFromAltStack_eq (m : ScriptMachine) : opFromAltStack m = embed m.opFromAltStack := by
  obtain ⟨stack, altstack, vfExec, nOpCount, codehash⟩ := m
  cases altstack <;> rfl

/-- An operation that checks the depth is the operation with patterns. -/
theorem execOp_eq (flags : UInt32) (pick : op ≠ .OP_PICK) (roll : op ≠ .OP_ROLL) (rest : CScript)
    (m : ScriptMachine) :
    execOp env flags op rest m = embed (m.execOp (toScriptEnv env) flags op rest) := by
  have nop : (if hasFlag flags SCRIPT_VERIFY_DISCOURAGE_UPGRADABLE_NOPS = true then
      setError .DISCOURAGE_UPGRADABLE_NOPS else .ok m : Eval ScriptMachine) =
      embed (if hasFlag flags SCRIPT_VERIFY_DISCOURAGE_UPGRADABLE_NOPS = true then
        .error .DISCOURAGE_UPGRADABLE_NOPS else .ok m) := by
    split <;> rfl
  cases op
  case OP_PICK => exact absurd rfl pick
  case OP_ROLL => exact absurd rfl roll
  case OP_NOP1 | OP_NOP2 | OP_NOP3 | OP_NOP4 | OP_NOP5 | OP_NOP6 | OP_NOP7 | OP_NOP8 | OP_NOP9
    | OP_NOP10 => exact nop
  case OP_IF => exact opIf_eq false m
  case OP_NOTIF => exact opIf_eq true m
  case OP_ELSE => exact opElse_eq m
  case OP_ENDIF => exact opEndIf_eq m
  case OP_VERIFY => exact opVerify_eq m
  case OP_TOALTSTACK => exact opToAltStack_eq m
  case OP_FROMALTSTACK => exact opFromAltStack_eq m
  case OP_2DROP | OP_2DUP | OP_3DUP | OP_2OVER | OP_2ROT | OP_2SWAP | OP_IFDUP | OP_DEPTH
    | OP_DROP | OP_DUP | OP_NIP | OP_OVER | OP_ROT | OP_SWAP | OP_TUCK | OP_SIZE =>
    exact onStack_eq (moveValues_eq _ m.stack)
  case OP_EQUAL | OP_EQUALVERIFY => exact onStack_eq (compareValues_eq _ m.stack)
  case OP_1ADD | OP_1SUB | OP_NEGATE | OP_ABS | OP_NOT | OP_0NOTEQUAL =>
    exact onStack_eq (unaryNumber_eq (by decide) _ m.stack)
  case OP_ADD | OP_SUB | OP_BOOLAND | OP_BOOLOR | OP_NUMEQUAL | OP_NUMEQUALVERIFY
    | OP_NUMNOTEQUAL | OP_LESSTHAN | OP_GREATERTHAN | OP_LESSTHANOREQUAL
    | OP_GREATERTHANOREQUAL | OP_MIN | OP_MAX =>
    exact onStack_eq (binaryNumber_eq (by decide) _ m.stack)
  case OP_WITHIN => exact onStack_eq (withinNumbers_eq _ m.stack)
  case OP_RIPEMD160 | OP_SHA1 | OP_SHA256 | OP_HASH160 | OP_HASH256 =>
    exact onStack_eq (hashValue_eq env _ m.stack)
  all_goals rfl

/-! ## What an operation returns -/

theorem meets_embed {Q : α → Prop} (returns : ∀ a, outcome = .ok a → Q a) :
    Meets Fair Q (lift (embed outcome)) := by
  cases outcome with
  | ok a => exact meets_ok (returns a rfl)
  | error serror => exact meets_error (exitOf_fair serror)

theorem meets_rejectIf {wrong : Prop} [Decidable wrong] {serror : ScriptError}
    (known : serror ≠ .UNKNOWN_ERROR) :
    Meets Fair (fun _ => ¬ wrong) (lift (rejectIf wrong serror)) := by
  unfold rejectIf
  split
  · exact meets_error known
  · rename_i right
    exact meets_ok right

/-- Behind the counting, only the signatures are counted: the other operations leave the count. -/
theorem execOp_nOpCount {env : ScriptEnv} {flags : UInt32} {rest : CScript} {m' : ScriptMachine}
    (done : m.execOp env flags op rest = .ok m') : m'.nOpCount = m.nOpCount := by
  have overStack : ∀ work : List valtype → Except ScriptError (List valtype),
      m.onStack work = .ok m' → m'.nOpCount = m.nOpCount := by
    intro work worked
    unfold ScriptMachine.onStack at worked
    cases outcome : work m.stack with
    | error serror =>
      rw [outcome] at worked
      cases worked
    | ok stack =>
      rw [outcome] at worked
      cases worked
      rfl
  cases op
  case OP_IF | OP_NOTIF =>
    simp only [ScriptMachine.execOp, ScriptMachine.opIf] at done
    split at done
    · split at done
      · cases done
      · cases done
        rfl
    · cases done
      rfl
  case OP_ELSE =>
    simp only [ScriptMachine.execOp, ScriptMachine.opElse] at done
    split at done
    · cases done
    · cases done
      rfl
  case OP_ENDIF =>
    simp only [ScriptMachine.execOp, ScriptMachine.opEndIf] at done
    split at done
    · cases done
    · cases done
      rfl
  case OP_VERIFY =>
    simp only [ScriptMachine.execOp, ScriptMachine.opVerify] at done
    split at done
    · cases done
    split at done
    · cases done
      rfl
    · cases done
  case OP_TOALTSTACK =>
    simp only [ScriptMachine.execOp, ScriptMachine.opToAltStack] at done
    split at done
    · cases done
    · cases done
      rfl
  case OP_FROMALTSTACK =>
    simp only [ScriptMachine.execOp, ScriptMachine.opFromAltStack] at done
    split at done
    · cases done
    · cases done
      rfl
  case OP_NOP1 | OP_NOP2 | OP_NOP3 | OP_NOP4 | OP_NOP5 | OP_NOP6 | OP_NOP7 | OP_NOP8 | OP_NOP9
    | OP_NOP10 =>
    simp only [ScriptMachine.execOp] at done
    split at done
    · cases done
    · cases done
      rfl
  case OP_NOP | OP_CODESEPARATOR =>
    cases done
    rfl
  all_goals first
    | exact overStack _ done
    | cases done

/-- An operation without signatures fails in a fair way and leaves the count. -/
theorem execOp_meets (flags : UInt32) (op : Op) (rest : CScript) (m : ScriptMachine) :
    Meets Fair (fun m' => m'.nOpCount = m.nOpCount) (lift (execOp env flags op rest m)) := by
  have picks : ∀ fRoll, Meets Fair (fun m' => m'.nOpCount = m.nOpCount)
      (lift (onStack m
        (pickValue (hasFlag flags SCRIPT_VERIFY_MINIMALDATA) fRoll)) : EvalChecking _) := by
    intro fRoll
    unfold onStack
    cases outcome : pickValue (hasFlag flags SCRIPT_VERIFY_MINIMALDATA) fRoll m.stack with
    | ok stack => exact meets_ok rfl
    | error ending => exact meets_error (pickValue_fair _ _ _ outcome)
  by_cases pick : op = .OP_PICK
  · subst pick
    exact picks false
  by_cases roll : op = .OP_ROLL
  · subst roll
    exact picks true
  · rw [execOp_eq env flags pick roll]
    exact meets_embed fun m' done => execOp_nOpCount done

/-! ## Signatures -/

/-- An error of the interpreter with patterns that is no exception. -/
def Known {α : Type} (outcome : Except ScriptError α) : Prop :=
  ∀ serror, outcome = .error serror → serror ≠ .UNKNOWN_ERROR

theorem known_failIf (wrong : Bool) {serror : ScriptError} (known : serror ≠ .UNKNOWN_ERROR) :
    Known (failIf wrong serror) := by
  intro other failed
  unfold failIf at failed
  split at failed
  · cases failed
    exact known
  · cases failed

theorem Known.bind {β : Type} {first : Except ScriptError α} {second : α → Except ScriptError β}
    (known : Known first) (known' : ∀ a, Known (second a)) : Known (first >>= second) := by
  intro serror failed
  cases first with
  | ok a => exact known' a serror failed
  | error serror' =>
    cases failed
    exact known _ rfl

theorem known_checkSignatureEncoding (flags : UInt32) (vchSig : valtype) :
    Known (checkSignatureEncoding flags vchSig) := by
  unfold checkSignatureEncoding
  split
  · exact fun serror failed => by cases failed
  refine (known_failIf _ (by decide)).bind fun _ => ?_
  have lowS : Known (checkLowDERSignature vchSig) :=
    (known_failIf _ (by decide)).bind fun _ => known_failIf _ (by decide)
  have fine : Known (.ok () : Except ScriptError Unit) := fun serror failed => by cases failed
  split
  · exact lowS.bind fun _ => known_failIf _ (by decide)
  · exact fine.bind fun _ => known_failIf _ (by decide)

theorem known_checkPubKeyEncoding (flags : UInt32) (vchPubKey : valtype) :
    Known (checkPubKeyEncoding flags vchPubKey) := known_failIf _ (by decide)

theorem ofExcept_eq (known : Known outcome) : ofExcept outcome = embed outcome := by
  cases outcome with
  | ok a => rfl
  | error serror =>
    show Except.error _ = Except.error (exitOf serror)
    rw [exitOf, if_neg (known serror rfl)]

theorem meets_ofExcept (known : Known outcome) :
    Meets Fair (fun _ => True) (lift (ofExcept outcome)) := by
  rw [ofExcept_eq known]
  exact meets_embed fun _ _ => trivial

theorem meets_callChecker (vchSig vchPubKey : valtype) (scriptCode : CScript) :
    Meets Fair (fun _ => True) (callChecker env vchSig vchPubKey scriptCode) :=
  meets_call fun _ => trivial

theorem meets_scriptNum (vch : valtype) (fRequireMinimal : Bool) :
    Meets Fair (fun _ => True) (lift (scriptNum vch fRequireMinimal)) := by
  rw [scriptNum_eq]
  exact meets_embed fun _ _ => trivial

theorem meets_stacktop {i : Int} (first : 1 ≤ i) (last : i ≤ stack.length) :
    Meets Fair (fun _ => True) (lift (stacktop stack (-i))) := by
  obtain ⟨vch, found, -⟩ := stacktop_neg first last
  rw [found]
  exact meets_ok trivial

theorem meets_pushResult (fSuccess : Bool) {failure : Option ScriptError}
    (known : ∀ serror, failure = some serror → serror ≠ .UNKNOWN_ERROR) (stack : List valtype) :
    Meets Fair (fun _ => True) (lift (pushResult fSuccess failure stack)) := by
  cases failure with
  | none => exact meets_ok trivial
  | some serror =>
    cases fSuccess with
    | false => exact meets_error (known serror rfl)
    | true => exact meets_ok trivial

/-- `OP_CHECKSIG` fails in a fair way and leaves the count. -/
theorem opCheckSig_meets (flags : UInt32) {failure : Option ScriptError}
    (known : ∀ serror, failure = some serror → serror ≠ .UNKNOWN_ERROR) (m : ScriptMachine) :
    Meets Fair (fun m' => m'.nOpCount = m.nOpCount) (opCheckSig env flags failure m) := by
  obtain ⟨stack, altstack, vfExec, nOpCount, codehash⟩ := m
  rcases stack with _ | ⟨vchPubKey, _ | ⟨vchSig, stack⟩⟩
  · exact meets_error (show ScriptError.INVALID_STACK_OPERATION ≠ .UNKNOWN_ERROR by decide)
  · exact meets_error (show ScriptError.INVALID_STACK_OPERATION ≠ .UNKNOWN_ERROR by decide)
  have checked : opCheckSig env flags failure
      ⟨vchPubKey :: vchSig :: stack, altstack, vfExec, nOpCount, codehash⟩ = (do
      Counted.lift (ofExcept (checkSignatureEncoding flags vchSig))
      Counted.lift (ofExcept (checkPubKeyEncoding flags vchPubKey))
      let fSuccess ← callChecker env vchSig vchPubKey
        (codehash.findAndDelete (CScript.pushData vchSig)).2
      let stack ← Counted.lift (pushResult fSuccess failure stack)
      pure ⟨stack, altstack, vfExec, nOpCount, codehash⟩) := rfl
  refine (meets_ofExcept (known_checkSignatureEncoding flags _)).bind fun _ _ => ?_
  refine (meets_ofExcept (known_checkPubKeyEncoding flags _)).bind fun _ _ => ?_
  refine (meets_callChecker env _ _ _).bind fun fSuccess _ => ?_
  refine (meets_pushResult fSuccess known stack).bind fun _ _ => ?_
  exact meets_pure rfl

/-- The signatures are dropped at positions that exist. -/
theorem dropSignatures_meets {isig : Int} (first : 1 ≤ isig) (more k : Nat)
    (last : isig + k + more - 1 ≤ stack.length) (scriptCode : CScript) :
    Meets Fair (fun _ => True) (lift (dropSignatures stack isig more k scriptCode)) := by
  induction more generalizing k scriptCode with
  | zero => exact meets_ok trivial
  | succ more ih =>
    obtain ⟨vchSig, found, -⟩ :=
      @stacktop_neg stack (isig + k) (by omega) (by omega)
    have turn : dropSignatures stack isig (more + 1) k scriptCode =
        dropSignatures stack isig more (k + 1)
          (scriptCode.findAndDelete (CScript.pushData vchSig)).2 := by
      rw [dropSignatures, show -isig - (k : Int) = -(isig + k) by omega, found]
      rfl
    rw [turn]
    exact ih (k + 1) (by omega) _

/-- The loop of `OP_CHECKMULTISIG` stays inside of the keys and the signatures, and ends. -/
theorem multiSigLoop_meets (flags : UInt32) (scriptCode : CScript) {fuel : Nat}
    {isig nSigsCount ikey nKeysCount : Int} (enough : nKeysCount < fuel) (nonneg : 0 ≤ nKeysCount)
    (fewer : nSigsCount ≤ nKeysCount) (firstSig : 1 ≤ isig)
    (lastSig : isig + nSigsCount - 1 ≤ stack.length) (firstKey : 1 ≤ ikey)
    (lastKey : ikey + nKeysCount - 1 ≤ stack.length) :
    Meets Fair (fun _ => True)
      (multiSigLoop env flags stack scriptCode fuel isig nSigsCount ikey nKeysCount) := by
  induction fuel generalizing isig nSigsCount ikey nKeysCount with
  | zero => omega
  | succ fuel ih =>
    refine Meets.ite (fun some => ?_) fun _ => meets_pure trivial
    refine (meets_stacktop (by omega) (by omega)).bind fun vchSig _ => ?_
    refine (meets_stacktop (by omega) (by omega)).bind fun vchPubKey _ => ?_
    refine (meets_ofExcept (known_checkSignatureEncoding flags _)).bind fun _ _ => ?_
    refine (meets_ofExcept (known_checkPubKeyEncoding flags _)).bind fun _ _ => ?_
    refine (meets_callChecker env _ _ _).bind fun fOk _ => ?_
    refine Meets.ite (fun _ => meets_pure trivial) fun left => ?_
    cases fOk with
    | false =>
      exact ih (by omega) (by omega) (by omega) firstSig lastSig (by omega) (by omega)
    | true =>
      simp only [if_true] at left ⊢
      exact ih (by omega) (by omega) (by omega) (by omega) (by omega) (by omega) (by omega)

theorem popstacks_eq {count : Nat} (enough : count ≤ stack.length) :
    popstacks count stack = .ok (stack.drop count) := by
  induction count generalizing stack with
  | zero => rfl
  | succ count ih =>
    cases stack with
    | nil => simp at enough
    | cons vch stack =>
      show popstacks count stack = _
      rw [ih (Nat.le_of_succ_le_succ enough)]
      rfl

/-- `OP_CHECKMULTISIG` fails in a fair way, and keeps the count in its bound. -/
theorem opCheckMultiSig_meets (flags : UInt32) {failure : Option ScriptError}
    (known : ∀ serror, failure = some serror → serror ≠ .UNKNOWN_ERROR) (m : ScriptMachine) :
    Meets Fair (fun m' => m.nOpCount ≤ m'.nOpCount ∧ m'.nOpCount ≤ 201)
      (opCheckMultiSig env flags failure m) := by
  have size := intSize_le m.stack
  refine (meets_rejectIf (by decide)).bind fun _ some => ?_
  refine (meets_stacktop (by omega) (by omega)).bind fun vch _ => ?_
  refine (meets_scriptNum vch _).bind fun m_value _ => ?_
  refine (meets_rejectIf (by decide)).bind fun _ keys => ?_
  refine (meets_rejectIf (by decide)).bind fun _ counted => ?_
  refine (meets_rejectIf (by decide)).bind fun _ keysThere => ?_
  refine (meets_stacktop (by omega) (by omega)).bind fun vch _ => ?_
  refine (meets_scriptNum vch _).bind fun m_value _ => ?_
  refine (meets_rejectIf (by decide)).bind fun _ sigs => ?_
  refine (meets_rejectIf (by decide)).bind fun _ sigsThere => ?_
  refine (dropSignatures_meets (by omega) _ _ (by omega) _).bind fun scriptCode _ => ?_
  refine (multiSigLoop_meets env flags scriptCode (by omega) (by omega) (by omega) (by omega)
    (by omega) (by omega) (by omega)).bind fun fSuccess _ => ?_
  rw [popstacks_eq (by omega)]
  refine (meets_ok (Q := fun _ => True) trivial).bind fun stack _ => ?_
  refine (meets_rejectIf (by decide)).bind fun _ more => ?_
  refine (meets_stacktop (by omega) (by omega)).bind fun dummy _ => ?_
  refine (meets_rejectIf (by decide)).bind fun _ _ => ?_
  cases stack with
  | nil => exact absurd Nat.zero_lt_one more
  | cons dummy stack =>
    refine (meets_ok (Q := fun _ => True) trivial).bind fun stack _ => ?_
    refine (meets_pushResult fSuccess known stack).bind fun stack _ => ?_
    exact meets_pure ⟨by simp only; omega, by simp only; omega⟩

/-! ## Turns and runs -/

theorem execOpcode_meets (flags : UInt32) (opcode : UInt8) (rest : CScript)
    (counted : m.nOpCount ≤ 201) :
    Meets Fair (fun m' => m.nOpCount ≤ m'.nOpCount ∧ m'.nOpCount ≤ 201)
      (execOpcode env flags opcode rest m) := by
  have kept : ∀ m' : ScriptMachine, m'.nOpCount = m.nOpCount →
      m.nOpCount ≤ m'.nOpCount ∧ m'.nOpCount ≤ 201 := by
    intro m' same
    omega
  refine Meets.ite (fun _ => meets_pure ⟨Int.le_refl _, counted⟩) fun _ => ?_
  split
  · exact (opCheckSig_meets env flags (by simp) m).mono kept
  · exact (opCheckSig_meets env flags (by simp) m).mono kept
  · exact opCheckMultiSig_meets env flags (by simp) m
  · exact opCheckMultiSig_meets env flags (by simp) m
  · exact (execOp_meets env flags _ rest m).mono kept
  · exact meets_error (show ScriptError.BAD_OPCODE ≠ .UNKNOWN_ERROR by decide)

theorem perform_meets (flags : UInt32) (opcode : UInt8) (vchPushValue : valtype) (rest : CScript)
    (counted : m.nOpCount ≤ 201) :
    Meets Fair (fun m' => m.nOpCount ≤ m'.nOpCount ∧ m'.nOpCount ≤ 201)
      (perform env flags opcode vchPushValue rest m) := by
  refine Meets.ite (fun _ => ?_) fun _ => Meets.ite (fun _ => ?_) fun _ => ?_
  · refine (meets_rejectIf (by decide)).bind fun _ _ => ?_
    exact meets_pure ⟨Int.le_refl _, counted⟩
  · exact execOpcode_meets env flags opcode rest counted
  · exact meets_pure ⟨Int.le_refl _, counted⟩

/-- What an opcode adds to `nOpCount`. -/
def counts (opcode : UInt8) : Int := if opcode > CScript.OP_16 then 1 else 0

theorem countOp_meets (opcode : UInt8) (vchPushValue : valtype) (counted : m.nOpCount ≤ 201) :
    Meets Fair (fun m' => m'.nOpCount = m.nOpCount + counts opcode ∧ m'.nOpCount ≤ 201)
      (lift (countOp opcode vchPushValue m)) := by
  unfold countOp
  rw [lift_bind]
  refine (meets_rejectIf (by decide)).bind fun _ _ => ?_
  simp only [lift_bind]
  refine (meets_rejectIf (by decide)).bind fun _ fits => ?_
  refine (meets_rejectIf (by decide)).bind fun _ _ => meets_ok ?_
  unfold counts
  split
  · rename_i high
    rw [if_pos high] at fits
    exact ⟨rfl, Int.not_lt.mp fun more => fits ⟨high, more⟩⟩
  · exact ⟨(Int.add_zero _).symm, counted⟩

/-- What a turn of the loop leaves. -/
theorem turn_meets (flags : UInt32) (opcode : UInt8) (vchPushValue : valtype) (rest : CScript)
    (counted : m.nOpCount ≤ 201) :
    Meets Fair (fun m' => m'.stack.length + m'.altstack.length ≤ 1000 ∧
        m.nOpCount + counts opcode ≤ m'.nOpCount ∧ m'.nOpCount ≤ 201)
      (turn env flags opcode vchPushValue rest m) := by
  refine (countOp_meets opcode vchPushValue counted).bind fun m1 ⟨before, within⟩ => ?_
  refine (perform_meets env flags opcode vchPushValue rest within).bind fun m2 ⟨grown, within⟩ => ?_
  refine (meets_rejectIf (by decide)).bind fun _ small => meets_pure ?_
  exact ⟨Nat.not_lt.mp small, by omega, within⟩

/-- The loop ends, and fails in a fair way. -/
theorem loop_meets (flags : UInt32) {fuel : Nat} {pc : CScript} (enough : pc.length ≤ fuel)
    (counted : m.nOpCount ≤ 201) : Meets Fair (fun _ => True) (loop env flags fuel pc m) := by
  induction fuel generalizing pc m with
  | zero =>
    obtain rfl := List.length_eq_zero_iff.mp (Nat.le_zero.mp enough)
    exact meets_pure trivial
  | succ fuel ih =>
    refine Meets.ite (fun _ => meets_pure trivial) fun _ => ?_
    cases read : pc.readOp with
    | none => exact meets_error (show ScriptError.BAD_OPCODE ≠ .UNKNOWN_ERROR by decide)
    | some result =>
      obtain ⟨opcode, vchPushValue, rest⟩ := result
      obtain ⟨operand, rfl, -⟩ := CScript.readOp_split read
      simp only [List.cons_append, List.length_cons, List.length_append] at enough
      refine (turn_meets env flags opcode vchPushValue rest counted).bind fun m' bounds => ?_
      exact ih (by omega) bounds.2.2

/-- Turns of the loop, with their opcodes: the machine, the script from `pc` on and the calls of the
checker, before and behind them. -/
inductive Turns (env : EvalEnv) (flags : UInt32) : ScriptMachine → CScript → Nat → List UInt8 →
    ScriptMachine → CScript → Nat → Prop
  | nil (m : ScriptMachine) (pc : CScript) (calls : Nat) : Turns env flags m pc calls [] m pc calls
  | cons {m m' last : ScriptMachine} {pc rest pcLast : CScript} {calls calls' callsLast : Nat}
      {opcode : UInt8} {vchPushValue : valtype} {opcodes : List UInt8} :
      pc.readOp = some (opcode, vchPushValue, rest) →
      turn env flags opcode vchPushValue rest m calls = .ok m' calls' →
      Turns env flags m' rest calls' opcodes last pcLast callsLast →
      Turns env flags m pc calls (opcode :: opcodes) last pcLast callsLast

/-- What turns of the loop keep. -/
theorem Turns.bounded {env : EvalEnv} {flags : UInt32} {last : ScriptMachine} {pc pcLast : CScript}
    {calls callsLast : Nat} {opcodes : List UInt8}
    (turns : Turns env flags m pc calls opcodes last pcLast callsLast) (counted : m.nOpCount ≤ 201)
    :
    (m.stack.length + m.altstack.length ≤ 1000 → last.stack.length + last.altstack.length ≤ 1000) ∧
    m.nOpCount + opcodes.countP (CScript.OP_16 < ·) ≤ last.nOpCount ∧ last.nOpCount ≤ 201 := by
  induction turns with
  | nil m pc calls => exact ⟨id, by simp, counted⟩
  | @cons m m' last pc rest pcLast calls calls' callsLast opcode vchPushValue opcodes read turned
      turns ih =>
    have bounds := turn_meets env flags opcode vchPushValue rest counted calls
    rw [turned] at bounds
    obtain ⟨small, grown, within⟩ := bounds
    obtain ⟨bounded, grown', within'⟩ := ih within
    refine ⟨fun _ => bounded small, ?_, within'⟩
    have here : ((opcode :: opcodes).countP (CScript.OP_16 < ·) : Int) =
        opcodes.countP (CScript.OP_16 < ·) + counts opcode := by
      rw [List.countP_cons, counts]
      by_cases high : CScript.OP_16 < opcode
      · simp [high]
      · simp [high]
    omega

/-- How `EvalScript` ends behind its last full turn: at the end of the script, or at an opcode that
is not read or fails. -/
inductive Ends (env : EvalEnv) (flags : UInt32) (m : ScriptMachine) : CScript → Nat →
    EStateM.Result Exit Nat (List valtype) → Prop
  | done {calls : Nat} : m.vfExec = [] → Ends env flags m [] calls (.ok m.stack calls)
  | unbalanced {calls : Nat} : m.vfExec ≠ [] →
      Ends env flags m [] calls (.error (.returned .UNBALANCED_CONDITIONAL) calls)
  | unread {pc : CScript} {calls : Nat} : pc ≠ [] → pc.readOp = none →
      Ends env flags m pc calls (.error (.returned .BAD_OPCODE) calls)
  | failed {pc rest : CScript} {calls after : Nat} {opcode : UInt8} {vchPushValue : valtype}
      {ending : Exit} : pc.readOp = some (opcode, vchPushValue, rest) →
      turn env flags opcode vchPushValue rest m calls = .error ending after →
      Ends env flags m pc calls (.error ending after)

/-- The check behind the loop. -/
theorem ends_unbalanced (env : EvalEnv) (flags : UInt32) (m : ScriptMachine) (calls : Nat) :
    Ends env flags m [] calls ((do
      lift (rejectIf (m.vfExec.isEmpty = false) .UNBALANCED_CONDITIONAL)
      pure m.stack : EvalChecking (List valtype)) calls) := by
  cases balanced : m.vfExec with
  | nil => exact .done balanced
  | cons back vfExec => exact .unbalanced (by rw [balanced]; exact List.cons_ne_nil _ _)

/-- The loop makes turns one after the other, each on the machine that the last one left. -/
theorem loop_turns (env : EvalEnv) (flags : UInt32) {fuel : Nat} {pc : CScript}
    (enough : pc.length ≤ fuel) (m : ScriptMachine) (calls : Nat) :
    ∃ opcodes last pcLast callsLast,
      Turns env flags m pc calls opcodes last pcLast callsLast ∧
      Ends env flags last pcLast callsLast ((loop env flags fuel pc m >>= fun m => do
        lift (rejectIf (m.vfExec.isEmpty = false) .UNBALANCED_CONDITIONAL)
        pure m.stack) calls) := by
  induction fuel generalizing pc m calls with
  | zero =>
    obtain rfl := List.length_eq_zero_iff.mp (Nat.le_zero.mp enough)
    exact ⟨[], m, [], calls, .nil _ _ _, ends_unbalanced env flags m calls⟩
  | succ fuel ih =>
    cases pc with
    | nil => exact ⟨[], m, [], calls, .nil _ _ _, ends_unbalanced env flags m calls⟩
    | cons byte pc =>
      have some : byte :: pc ≠ [] := List.cons_ne_nil _ _
      rw [bind_apply, loop, if_neg (by rw [List.isEmpty_cons]; exact Bool.false_ne_true)]
      cases read : CScript.readOp (byte :: pc) with
      | none => exact ⟨[], m, _, calls, .nil _ _ _, .unread some read⟩
      | some result =>
        obtain ⟨opcode, vchPushValue, rest⟩ := result
        obtain ⟨operand, parts, -⟩ := CScript.readOp_split read
        have shorter : rest.length ≤ fuel := by
          have lengths := congrArg List.length parts
          simp only [List.cons_append, List.length_cons, List.length_append] at lengths enough
          omega
        dsimp only
        rw [bind_apply]
        cases turned : turn env flags opcode vchPushValue rest m calls with
        | error ending after =>
          exact ⟨[], m, _, calls, .nil _ _ _, .failed read turned⟩
        | ok m' calls' =>
          obtain ⟨opcodes, last, pcLast, callsLast, turns, ends⟩ := ih shorter m' calls'
          rw [bind_apply] at ends
          exact ⟨opcode :: opcodes, last, pcLast, callsLast, .cons read turned turns, ends⟩

/-- `EvalScript` reaches into its stacks only where they are, no assertion fails and it ends; the
machine behind each turn, and so at the end, keeps the bounds of the stacks and of the operations.
-/
theorem evalScript_safe (env : EvalEnv) (flags : UInt32) (script : CScript)
    (stack : List valtype) (calls : Nat) :
    (∀ ending after, evalScript env flags script stack calls = .error ending after → Fair ending) ∧
    (∀ opcodes m pc after, Turns env flags (start script stack) script calls opcodes m pc after →
      (stack.length ≤ 1000 → m.stack.length + m.altstack.length ≤ 1000) ∧
      opcodes.countP (CScript.OP_16 < ·) ≤ m.nOpCount ∧ m.nOpCount ≤ 201) ∧
    if script.length > 10000 then
      evalScript env flags script stack calls = .error (.returned .SCRIPT_SIZE) calls
    else
      ∃ opcodes m pc after, Turns env flags (start script stack) script calls opcodes m pc after ∧
        Ends env flags m pc after (evalScript env flags script stack calls) ∧
        (stack.length ≤ 1000 → m.stack.length + m.altstack.length ≤ 1000) ∧
        opcodes.countP (CScript.OP_16 < ·) ≤ 201 := by
  have begins : (start script stack).nOpCount ≤ 201 := show (0 : Int) ≤ 201 by decide
  have bounds : ∀ opcodes m pc after,
      Turns env flags (start script stack) script calls opcodes m pc after →
      (stack.length ≤ 1000 → m.stack.length + m.altstack.length ≤ 1000) ∧
      opcodes.countP (CScript.OP_16 < ·) ≤ m.nOpCount ∧ m.nOpCount ≤ 201 := by
    intro opcodes m pc after turns
    obtain ⟨bounded, counted, within⟩ := turns.bounded begins
    refine ⟨fun small => bounded small, ?_, within⟩
    have zero : (start script stack).nOpCount = 0 := rfl
    omega
  refine ⟨?_, bounds, ?_⟩
  · have meets : Meets Fair (fun _ => True) (evalScript env flags script stack) := by
      refine (meets_rejectIf (by decide)).bind fun _ _ => ?_
      refine (loop_meets env flags (Nat.le_refl _) begins).bind fun m _ => ?_
      refine (meets_rejectIf (by decide)).bind fun _ _ => meets_pure trivial
    intro ending after failed
    have fair := meets calls
    rw [failed] at fair
    exact fair
  unfold evalScript
  by_cases long : script.length > 10000
  · rw [if_pos long, rejectIf, if_pos long]
    rfl
  rw [if_neg long, rejectIf, if_neg long]
  obtain ⟨opcodes, m, pc, after, turns, ends⟩ :=
    loop_turns env flags (Nat.le_refl _) (start script stack) calls
  obtain ⟨small, counted, within⟩ := bounds opcodes m pc after turns
  exact ⟨opcodes, m, pc, after, turns, ends, small, by omega⟩

def sampleEnv : EvalEnv := ⟨id, id, id, fun _ _ _ _ => false⟩

/-- `1 OP_TOALTSTACK 2 OP_DUP OP_FROMALTSTACK OP_ADD`. -/
def sampleScript : CScript := [0x51, 0x6b, 0x52, 0x76, 0x6c, 0x93]

/-- The value comes back from the other stack and is added; at the third turn both hold one. -/
theorem evalScript_safe_sample : ∃ m m' : ScriptMachine,
    (Turns sampleEnv 0 (start sampleScript []) sampleScript 0 [0x51, 0x6b, 0x52] m
      [0x76, 0x6c, 0x93] 0 ∧ m.stack = [[2]] ∧ m.altstack = [[1]] ∧
      m.stack.length + m.altstack.length ≤ 1000) ∧
    (Turns sampleEnv 0 (start sampleScript []) sampleScript 0 sampleScript m' [] 0 ∧
      m'.stack = [[3], [2]] ∧ m'.nOpCount = 4 ∧ m'.nOpCount ≤ 201) ∧
    ∃ opcodes m pc after, Turns sampleEnv 0 (start sampleScript []) sampleScript 0 opcodes m pc after ∧
      Ends sampleEnv 0 m pc after (evalScript sampleEnv 0 sampleScript [] 0) := by
  have part : Turns sampleEnv 0 (start sampleScript []) sampleScript 0 [0x51, 0x6b, 0x52]
      ⟨[[2]], [[1]], [], 1, sampleScript⟩ [0x76, 0x6c, 0x93] 0 :=
    .cons rfl rfl (.cons rfl rfl (.cons rfl rfl (.nil _ _ _)))
  have whole : Turns sampleEnv 0 (start sampleScript []) sampleScript 0 sampleScript
      ⟨[[3], [2]], [], [], 4, sampleScript⟩ [] 0 :=
    .cons rfl rfl (.cons rfl rfl (.cons rfl rfl (.cons rfl rfl (.cons rfl rfl (.cons rfl rfl
      (.nil _ _ _))))))
  obtain ⟨-, bounds, opcodes, m, pc, after, turns, ends, -⟩ :=
    evalScript_safe sampleEnv 0 sampleScript [] 0
  exact ⟨_, _, ⟨part, rfl, rfl, (bounds _ _ _ _ part).1 (by decide)⟩,
    ⟨whole, rfl, rfl, (bounds _ _ _ _ whole).2.2⟩, opcodes, m, pc, after, turns, ends⟩

end Esbcoin.Eval
