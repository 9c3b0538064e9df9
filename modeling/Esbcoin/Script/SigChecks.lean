import Esbcoin.Script.Interpreter

/-!
# Signature checks are counted before

However a script runs, it calls the signature checker no more often than `GetSigOpCount` says
(`evalScript_atMost`): a multisignature check looks at each key at most once, there are at most 20
of them, and where the opcode before it pushes a small number it is the number of keys.
-/

namespace Esbcoin

open Counted CScript ScriptMachine CScriptNum

variable {env : ScriptEnv} {flags : UInt32}

/-! ## One operation -/

theorem callChecker_atMost (vchSig vchPubKey : valtype) (scriptCode : CScript) :
    AtMost 1 (callChecker env vchSig vchPubKey scriptCode) :=
  atMost_call _

theorem opCheckSig_atMost (failure : Option ScriptError) (m : ScriptMachine) :
    AtMost 1 (m.opCheckSig env flags failure) := by
  unfold opCheckSig
  split
  · apply AtMost.lift_bind
    intro _ _
    apply AtMost.lift_bind
    intro _ _
    exact (callChecker_atMost _ _ _).bind fun success _ => atMost_lift _
  · exact (atMost_lift _).mono (Nat.zero_le 1)

/-- Every key is tried at most once. -/
theorem checkMultiSig_atMost (scriptCode : CScript) (sigs keys : List valtype) :
    AtMost keys.length (checkMultiSig env flags scriptCode sigs keys) := by
  induction keys generalizing sigs with
  | nil =>
    cases sigs with
    | nil => exact atMost_pure true
    | cons vchSig sigs => exact atMost_pure false
  | cons vchPubKey keys ih =>
    cases sigs with
    | nil => exact (atMost_pure true).mono (Nat.zero_le _)
    | cons vchSig sigs =>
      have next : ∀ left : List valtype, AtMost keys.length
          (if left.length > keys.length then pure false
            else checkMultiSig env flags scriptCode left keys) := by
        intro left
        split
        · exact (atMost_pure false).mono (Nat.zero_le _)
        · exact ih left
      rw [checkMultiSig, List.length_cons, Nat.add_comm]
      apply AtMost.lift_bind
      intro _ _
      apply AtMost.lift_bind
      intro _ _
      exact (callChecker_atMost _ _ _).bind fun fOk _ => next _

theorem opCheckMultiSig_atMost {bound : Nat} (failure : Option ScriptError) {m : ScriptMachine}
    (keysCount : ∀ nKeysCount stack, popCount
      (hasFlag flags SCRIPT_VERIFY_MINIMALDATA) 20 .PUBKEY_COUNT m.stack =
        .ok (nKeysCount, stack) → nKeysCount ≤ bound) :
    AtMost bound (m.opCheckMultiSig env flags failure) := by
  apply AtMost.lift_bind
  rintro ⟨nKeysCount, stack⟩ popped
  have few := keysCount nKeysCount stack popped
  apply AtMost.lift_bind
  intro _ _
  apply AtMost.lift_bind
  intro _ _
  apply AtMost.lift_bind
  rintro ⟨nSigsCount, below⟩ _
  apply AtMost.lift_bind
  intro _ _
  have keys : (stack.take nKeysCount).length ≤ bound := by
    rw [List.length_take]
    omega
  refine ((checkMultiSig_atMost _ _ _).bind fun success _ => (?_ : AtMost 0 _)).mono keys
  split
  · exact atMost_lift _
  · apply AtMost.lift_bind
    intro _ _
    exact atMost_lift _

/-- What a count is taken for, and that it is in its range. -/
theorem popCount_ok {fRequireMinimal : Bool} {limit : Int} {failure : ScriptError}
    {top : valtype} {stack below : List valtype} {n : Nat}
    (h : popCount fRequireMinimal limit failure (top :: stack) = .ok (n, below)) :
    ∃ value, ofBytes top fRequireMinimal = .ok value ∧
      n = (getint value).toNat ∧ getint value ≤ limit := by
  unfold popCount at h
  cases read : ofBytes top fRequireMinimal with
  | error e => simp only [read, bind, Except.bind, reduceCtorEq] at h
  | ok value =>
    simp only [read, bind, Except.bind, failIf] at h
    split at h
    · cases h
    rename_i inRange
    split at inRange
    · cases inRange
    rename_i within
    simp only [Except.ok.injEq, Prod.mk.injEq] at h
    simp only [Bool.or_eq_true, decide_eq_true_eq, not_or, Int.not_lt] at within
    exact ⟨value, rfl, h.1.symm, within.2⟩

/-- The number an opcode pushes is taken for what it is. -/
theorem popCount_small {fRequireMinimal : Bool} {limit : Int} {failure : ScriptError}
    {opcode : UInt8} {stack below : List valtype} {n : Nat} (low : CScript.OP_1 ≤ opcode)
    (high : opcode ≤ CScript.OP_16)
    (h : popCount fRequireMinimal limit failure
      (serialize ((opcode.toNat : Int) - 0x50) :: stack) = .ok (n, below)) :
    n = decodeOP_N opcode := by
  rw [UInt8.le_iff_toNat_le] at low high
  have first : CScript.OP_1.toNat = 0x51 := rfl
  have last : CScript.OP_16.toNat = 0x60 := rfl
  have same : ∀ minimal : Bool, ∀ k < 17, ofBytes (serialize (k : Nat))
      minimal = .ok (k : Int) := by decide
  obtain ⟨value, read, rfl, -⟩ := popCount_ok h
  have number : (opcode.toNat : Int) - 0x50 = (decodeOP_N opcode : Nat) := by
    unfold decodeOP_N
    omega
  have small : decodeOP_N opcode < 17 := by
    omega
  rw [number, same fRequireMinimal _ small] at read
  obtain rfl := Except.ok.inj read
  unfold getint
  omega

namespace ScriptMachine

/-- After an opcode for a small number, where the machine executes, the number is on top. -/
def Pushed (lastOpcode : UInt8) (m : ScriptMachine) : Prop :=
  CScript.OP_1 ≤ lastOpcode → lastOpcode ≤ CScript.OP_16 → m.fExec = true →
    ∃ stack, m.stack = serialize ((lastOpcode.toNat : Int) - 0x50) :: stack

variable {lastOpcode opcode : UInt8} {m m' : ScriptMachine} {rest : CScript}
  {vchPushValue : valtype}

/-- A multisignature check that is executed is bounded by what is counted for it. -/
theorem Pushed.opCheckMultiSig_atMost (pushed : m.Pushed lastOpcode) (executes : m.fExec = true)
    (failure : Option ScriptError) :
    AtMost (if true = true ∧ CScript.OP_1 ≤ lastOpcode ∧ lastOpcode ≤ CScript.OP_16 then
      decodeOP_N lastOpcode else 20) (m.opCheckMultiSig env flags failure) := by
  apply Esbcoin.opCheckMultiSig_atMost
  intro nKeysCount below popped
  split
  · rename_i small
    obtain ⟨stack, top⟩ := pushed small.2.1 small.2.2 executes
    rw [top] at popped
    exact Nat.le_of_eq (popCount_small small.2.1 small.2.2 popped)
  cases stack : m.stack with
  | nil =>
    rw [stack] at popped
    cases popped
  | cons top rest =>
    rw [stack] at popped
    obtain ⟨value, -, rfl, few⟩ := popCount_ok popped
    omega

/-- The opcodes that do something where the machine does not execute check no signatures. -/
theorem ofByte_conditional (range : 0x63 ≤ opcode ∧ opcode ≤ 0x68) (op : Op)
    (checks : op = .OP_CHECKSIG ∨ op = .OP_CHECKSIGVERIFY ∨ op = .OP_CHECKMULTISIG ∨
      op = .OP_CHECKMULTISIGVERIFY) : Op.ofByte opcode ≠ some op := by
  obtain ⟨low, high⟩ := range
  rw [UInt8.le_iff_toNat_le] at low high
  have last : (0x68 : UInt8).toNat = 0x68 := rfl
  have conditional : ∀ i < 8, Op.inOrder[i]? ≠ some .OP_CHECKSIG ∧
      Op.inOrder[i]? ≠ some .OP_CHECKSIGVERIFY ∧ Op.inOrder[i]? ≠ some .OP_CHECKMULTISIG ∧
      Op.inOrder[i]? ≠ some .OP_CHECKMULTISIGVERIFY := by decide
  obtain ⟨h1, h2, h3, h4⟩ := conditional (opcode.toNat - 0x61) (by omega)
  unfold Op.ofByte
  split
  · exact (Option.some_ne_none op).symm
  · rcases checks with rfl | rfl | rfl | rfl <;> assumption

theorem execOpcode_atMost (pushed : m.Pushed lastOpcode)
    (executes : m.fExec = true ∨ 0x63 ≤ opcode ∧ opcode ≤ 0x68) :
    AtMost (CScript.sigOps true lastOpcode opcode) (m.execOpcode env flags opcode rest) := by
  unfold execOpcode
  split
  · exact (atMost_pure _).mono (Nat.zero_le _)
  have fExec : ∀ op, Op.ofByte opcode = some op → (op = .OP_CHECKSIG ∨ op = .OP_CHECKSIGVERIFY ∨
      op = .OP_CHECKMULTISIG ∨ op = .OP_CHECKMULTISIGVERIFY) → m.fExec = true := by
    intro op isOp checks
    rcases executes with executes | range
    · exact executes
    · exact absurd isOp (ofByte_conditional range op checks)
  split
  · rename_i isOp
    rw [CScript.sigOps, isOp]
    exact opCheckSig_atMost none m
  · rename_i isOp
    rw [CScript.sigOps, isOp]
    exact opCheckSig_atMost _ m
  · rename_i isOp
    rw [CScript.sigOps, isOp]
    exact pushed.opCheckMultiSig_atMost (fExec _ isOp (by simp)) none
  · rename_i isOp
    rw [CScript.sigOps, isOp]
    exact pushed.opCheckMultiSig_atMost (fExec _ isOp (by simp)) _
  · exact (atMost_lift _).mono (Nat.zero_le _)
  · exact (atMost_lift _).mono (Nat.zero_le _)

theorem perform_atMost (pushed : m.Pushed lastOpcode) :
    AtMost (CScript.sigOps true lastOpcode opcode)
      (m.perform env flags opcode vchPushValue rest) := by
  unfold perform
  split
  · exact (atMost_lift _).mono (Nat.zero_le _)
  split
  · rename_i executes
    exact execOpcode_atMost pushed executes
  · exact (atMost_pure m).mono (Nat.zero_le _)

/-- Counting an operation leaves the stack and the conditions. -/
theorem countOp_ok (h : countOp opcode vchPushValue m = .ok m') :
    m'.stack = m.stack ∧ m'.vfExec = m.vfExec := by
  simp only [countOp, bind, Except.bind] at h
  split at h
  · cases h
  split at h
  · cases h
  split at h
  · cases h
  · obtain rfl := Except.ok.inj h
    exact ⟨rfl, rfl⟩

/-- A turn of the loop checks no more signatures than are counted for its opcode. -/
theorem step_atMost (pushed : m.Pushed lastOpcode) :
    AtMost (CScript.sigOps true lastOpcode opcode)
      (m.step env flags opcode vchPushValue rest) := by
  apply AtMost.lift_bind
  intro m' counted
  obtain ⟨stack, vfExec⟩ := countOp_ok counted
  have pushed' : m'.Pushed lastOpcode := by
    intro low high executes
    rw [fExec, vfExec] at executes
    rw [stack]
    exact pushed low high executes
  refine (perform_atMost pushed').bind fun m _ => (?_ : AtMost 0 _)
  apply AtMost.lift_bind
  intro _ _
  exact atMost_pure m

theorem pushed_of_perform (returns : Returns (m.perform env flags opcode vchPushValue rest) m') :
    m'.Pushed opcode := by
  intro low high executes
  unfold perform at returns
  rw [UInt8.le_iff_toNat_le] at low high
  have first : CScript.OP_1.toNat = 0x51 := rfl
  split at returns
  · rename_i both
    have data := both.2
    rw [UInt8.le_iff_toNat_le, show CScript.OP_PUSHDATA4.toNat = 0x4e from rfl] at data
    omega
  split at returns
  · rw [execOpcode, if_pos (Or.inr ⟨UInt8.le_iff_toNat_le.mpr low,
      UInt8.le_iff_toNat_le.mpr high⟩)] at returns
    obtain rfl := returns_pure returns
    exact ⟨m.stack, rfl⟩
  · rename_i idle
    obtain rfl := returns_pure returns
    exact absurd (Or.inl executes) idle

theorem pushed_of_step (returns : Returns (m.step env flags opcode vchPushValue rest) m') :
    m'.Pushed opcode := by
  obtain ⟨_, -, returns⟩ := returns_bind returns
  obtain ⟨_, performed, returns⟩ := returns_bind returns
  obtain ⟨_, -, returns⟩ := returns_bind returns
  obtain rfl := returns_pure returns
  exact pushed_of_perform performed

/-- The loop checks no more signatures than are counted from where it is. -/
theorem run_atMost {fuel : Nat} {pc : CScript} (pushed : m.Pushed lastOpcode) :
    AtMost (exactSigOps true fuel lastOpcode pc) (run env flags fuel pc m) := by
  induction fuel generalizing lastOpcode pc m with
  | zero =>
    rw [run]
    split
    · exact atMost_pure m
    · exact atMost_lift _
  | succ fuel ih =>
    rw [run, exactSigOps]
    by_cases done : pc.isEmpty = true
    · rw [if_pos done]
      exact (atMost_pure m).mono (Nat.zero_le _)
    rw [if_neg done]
    cases read : pc.readOp with
    | none => exact atMost_lift _
    | some result =>
      obtain ⟨opcode, vchPushValue, rest⟩ := result
      exact (step_atMost pushed).bind fun m' returns => ih (pushed_of_step returns)

end ScriptMachine

/-- Running a script checks no more signatures than `GetSigOpCount` says, accurate or not. -/
theorem evalScript_atMost (fAccurate : Bool) (script : CScript) (stack : List valtype) :
    AtMost (script.getSigOpCount fAccurate).toNat (evalScript env flags script stack) := by
  apply AtMost.lift_bind
  intro _ passes
  have short : script.length ≤ 10000 := by
    unfold failIf at passes
    split at passes
    · cases passes
    · rename_i notLong
      rw [decide_eq_true_eq] at notLong
      omega
  rw [toNat_getSigOpCount fAccurate short]
  have start : ({ stack, codehash := script } : ScriptMachine).Pushed
      CScript.OP_INVALIDOPCODE := fun _ high => absurd high (by decide)
  have bound := exactSigOps_accurate_le fAccurate script.length CScript.OP_INVALIDOPCODE
    script
  refine AtMost.mono ?_ bound
  refine (ScriptMachine.run_atMost start).bind fun m _ => (?_ : AtMost 0 _)
  apply AtMost.lift_bind
  intro _ _
  exact atMost_pure m.stack

/-! ## The script of a script hash -/

/-- The script that pays to a script hash checks no signatures itself. -/
theorem getSigOpCount_of_isPayToScriptHash {script : CScript}
    (scriptHash : script.isPayToScriptHash = true) : script.getSigOpCount true = 0 := by
  simp only [isPayToScriptHash, Bool.and_eq_true, beq_iff_eq] at scriptHash
  obtain ⟨⟨⟨length, first⟩, second⟩, last⟩ := scriptHash
  obtain ⟨hash, size, rfl⟩ : ∃ hash : List UInt8, hash.length = 20 ∧
      script = CScript.OP_HASH160 :: 0x14 :: (hash ++ [CScript.OP_EQUAL]) := by
    match script, first, second with
    | a :: b :: tail, first, second =>
      rw [List.getElem?_cons_zero, Option.some.injEq] at first
      rw [List.getElem?_cons_succ, List.getElem?_cons_zero, Option.some.injEq] at second
      subst first second
      simp only [List.length_cons] at length
      refine ⟨tail.take 20, by rw [List.length_take]; omega, ?_⟩
      have behind : tail.drop 20 = [CScript.OP_EQUAL] := by
        rw [List.getElem?_cons_succ, List.getElem?_cons_succ] at last
        rw [List.drop_eq_getElem?_toList_append, last, List.drop_eq_nil_of_le (by omega)]
        rfl
      rw [← behind, List.take_append_drop]
  have hash160 : readOp
      (CScript.OP_HASH160 :: 0x14 :: (hash ++ [CScript.OP_EQUAL])) =
        some (CScript.OP_HASH160, [], 0x14 :: (hash ++ [CScript.OP_EQUAL])) := rfl
  have push := readOp_push20 size [CScript.OP_EQUAL]
  have equal : readOp [CScript.OP_EQUAL] = some (CScript.OP_EQUAL, [], []) := rfl
  unfold getSigOpCount
  rw [length]
  simp only [getSigOpCountFrom, hash160, push, equal]
  rfl

/-- A number that an opcode pushes is a script without signature checks. -/
theorem getSigOpCount_small {opcode : UInt8} (number : opcode = CScript.OP_1NEGATE ∨
    CScript.OP_1 ≤ opcode ∧ opcode ≤ CScript.OP_16) :
    getSigOpCount true (serialize ((opcode.toNat : Int) - 0x50)) = 0 := by
  have numbers : ∀ k < 18, getSigOpCount true
      (serialize (((0x4f + k : Nat) : Int) - 0x50)) = 0 := by decide
  have range : 0x4f ≤ opcode.toNat ∧ opcode.toNat < 0x4f + 18 := by
    rcases number with rfl | ⟨low, high⟩
    · decide
    rw [UInt8.le_iff_toNat_le] at low high
    have first : CScript.OP_1.toNat = 0x51 := rfl
    have last : CScript.OP_16.toNat = 0x60 := rfl
    omega
  have same : 0x4f + (opcode.toNat - 0x4f) = opcode.toNat := by omega
  rw [← same]
  exact numbers _ (by omega)

namespace ScriptMachine

/-- An operation of a script that only pushes puts one value on the stack: what it has read, or a
number, which is a script without signature checks. -/
theorem pushes_of_step {opcode : UInt8} {vchPushValue : valtype} {rest : CScript}
    {m m' : ScriptMachine} (low : ¬ opcode > CScript.OP_16) (unconditional : m.vfExec = [])
    (returns : Returns (m.step env flags opcode vchPushValue rest) m') :
    m'.vfExec = [] ∧ ∃ top, m'.stack = top :: m.stack ∧
      (top = vchPushValue ∨ getSigOpCount true top = 0) := by
  obtain ⟨m1, counted, returns⟩ := returns_bind returns
  obtain ⟨m2, performed, returns⟩ := returns_bind returns
  obtain ⟨_, -, returns⟩ := returns_bind returns
  obtain rfl := returns_pure returns
  obtain ⟨stack, vfExec⟩ := countOp_ok (returns_lift counted)
  have executes : m1.fExec = true := by rw [fExec, vfExec, unconditional]; rfl
  rw [← stack, ← unconditional, ← vfExec]
  unfold perform at performed
  split at performed
  · have pushed := returns_lift performed
    unfold failIf at pushed
    split at pushed
    · cases pushed
    · obtain rfl := Except.ok.inj pushed
      exact ⟨rfl, vchPushValue, rfl, Or.inl rfl⟩
  rename_i noData
  rw [if_pos (Or.inl executes)] at performed
  unfold execOpcode at performed
  split at performed
  · rename_i number
    obtain rfl := returns_pure performed
    exact ⟨rfl, _, rfl, Or.inr (getSigOpCount_small number)⟩
  have reserved : Op.ofByte opcode = none := by
    rw [gt_iff_lt, UInt8.lt_iff_toNat_lt, show CScript.OP_16.toNat = 0x60 from rfl] at low
    apply if_pos
    rw [UInt8.lt_iff_toNat_lt, show (0x61 : UInt8).toNat = 0x61 from rfl]
    omega
  rw [reserved] at performed
  cases returns_lift performed

/-- What a script that only pushes leaves on top is bounded by what `GetSigOpCount` finds pushed
last. -/
theorem lastPush_of_run {fuel : Nat} {data : List UInt8} {pc : CScript} {m m' : ScriptMachine}
    (pushOnly : isPushOnlyFrom fuel pc = true) (unconditional : m.vfExec = [])
    (bounded : ∀ top ∈ m.stack.head?, ∀ stack,
      AtMost (getSigOpCount true data).toNat (evalScript env flags top stack))
    (returns : Returns (run env flags fuel pc m) m') :
    ∃ data', lastPush fuel data pc = some data' ∧ ∀ top ∈ m'.stack.head?, ∀ stack,
      AtMost (getSigOpCount true data').toNat (evalScript env flags top stack) := by
  induction fuel generalizing data pc m with
  | zero =>
    rw [run] at returns
    split at returns
    · obtain rfl := returns_pure returns
      exact ⟨data, rfl, bounded⟩
    · cases returns_lift returns
  | succ fuel ih =>
    rw [run] at returns
    rw [isPushOnlyFrom] at pushOnly
    rw [lastPush]
    by_cases done : pc.isEmpty = true
    · rw [if_pos done] at returns ⊢
      obtain rfl := returns_pure returns
      exact ⟨data, rfl, bounded⟩
    rw [if_neg done] at returns pushOnly ⊢
    cases read : pc.readOp with
    | none =>
      rw [read] at pushOnly
      cases pushOnly
    | some result =>
      obtain ⟨opcode, vchPushValue, rest⟩ := result
      simp only [read] at returns pushOnly ⊢
      split at pushOnly
      · cases pushOnly
      rename_i low
      rw [if_neg low]
      obtain ⟨middle, stepped, later⟩ := returns_bind returns
      obtain ⟨unconditional', top, stack, pushed⟩ := pushes_of_step low unconditional stepped
      apply ih pushOnly unconditional' _ later
      intro top' isTop below
      rw [stack, List.head?_cons, Option.mem_some_iff] at isTop
      subst isTop
      rcases pushed with rfl | none
      · exact evalScript_atMost true _ below
      have unchecked : AtMost (getSigOpCount true top).toNat
          (evalScript env flags top below) := evalScript_atMost true top below
      rw [none] at unchecked
      exact unchecked.mono (Nat.zero_le _)

end ScriptMachine

/-- The script of a script hash checks no more signatures than are counted for it. -/
theorem verifyScriptHash_atMost {scriptSig scriptPubKey : CScript} {stackCopy : List valtype}
    (scriptHash : scriptPubKey.isPayToScriptHash = true)
    (returns : Returns (evalScript env flags scriptSig []) stackCopy) :
    AtMost (scriptPubKey.getSigOpCountOf scriptSig).toNat
      (verifyScriptHash env flags scriptSig stackCopy) := by
  apply AtMost.lift_bind
  intro _ passes
  have pushOnly : scriptSig.isPushOnly = true := by
    unfold failIf at passes
    split at passes
    · cases passes
    · rename_i pushes
      rwa [Bool.not_eq_true, Bool.not_eq_false'] at pushes
  obtain ⟨_, -, returns⟩ := returns_bind returns
  obtain ⟨m, ran, returns⟩ := returns_bind returns
  obtain ⟨_, -, returns⟩ := returns_bind returns
  have start : ∀ top ∈ ([] : List valtype).head?, ∀ stack,
      AtMost (getSigOpCount true []).toNat (evalScript env flags top stack) :=
    fun top isTop => absurd isTop (Option.not_mem_none top)
  obtain ⟨data, found, bounded⟩ := ScriptMachine.lastPush_of_run pushOnly rfl start ran
  rw [← returns_pure returns] at bounded
  simp only [getSigOpCountOf, scriptHash, found, Bool.not_true, Bool.false_eq_true,
    if_false]
  cases stackCopy with
  | nil => exact (atMost_lift _).mono (Nat.zero_le _)
  | cons pubKeySerialized stackCopy =>
    have checks := bounded pubKeySerialized rfl stackCopy
    exact checks.bind fun after _ => (atMost_lift (leavesTrue after) : AtMost 0 _)

/-- What `VerifyScript` calls is bounded by what is counted for the two scripts, of which the one
that pays to a script hash has to be counted with the script it is given. -/
theorem verifyScript_atMost (env : ScriptEnv) (flags : UInt32) (fAccurate : Bool)
    (scriptSig scriptPubKey : CScript) :
    AtMost ((scriptSig.getSigOpCount fAccurate).toNat +
        if scriptPubKey.isPayToScriptHash then (scriptPubKey.getSigOpCountOf scriptSig).toNat
        else (scriptPubKey.getSigOpCount fAccurate).toNat)
      (verifyScript env flags scriptSig scriptPubKey) := by
  apply AtMost.lift_bind
  intro _ _
  refine (evalScript_atMost fAccurate scriptSig []).bind fun stackCopy returns => ?_
  by_cases scriptHash : scriptPubKey.isPayToScriptHash = true
  · have own : AtMost 0 (evalScript env flags scriptPubKey stackCopy) := by
      have bound : AtMost (scriptPubKey.getSigOpCount true).toNat
          (evalScript env flags scriptPubKey stackCopy) := evalScript_atMost true _ _
      rwa [getSigOpCount_of_isPayToScriptHash scriptHash] at bound
    rw [if_pos scriptHash, ← Nat.zero_add (scriptPubKey.getSigOpCountOf scriptSig).toNat]
    refine own.bind fun stack _ => ?_
    apply AtMost.lift_bind
    intro _ _
    split
    · exact verifyScriptHash_atMost scriptHash returns
    · exact (atMost_pure ()).mono (Nat.zero_le _)
  · rw [if_neg scriptHash]
    refine ((evalScript_atMost fAccurate scriptPubKey stackCopy).bind fun stack _ =>
      (?_ : AtMost 0 _)).mono (Nat.le_refl _)
    apply AtMost.lift_bind
    intro _ _
    rw [if_neg fun both => scriptHash both.2]
    exact atMost_pure ()

/-- For all scripts, flags and signature checkers `VerifyScript` calls `CheckSig` no more often than
the accurate counts of the two scripts say, nor than the limits count for the input. -/
theorem verifyScript_calls_le (env : ScriptEnv) (flags : UInt32)
    (scriptSig scriptPubKey : CScript) :
    calls (verifyScript env flags scriptSig scriptPubKey) ≤
        (scriptSig.getSigOpCount true).toNat + (scriptPubKey.getSigOpCountOf scriptSig).toNat ∧
      calls (verifyScript env flags scriptSig scriptPubKey) ≤
        (scriptSig.getSigOpCount false).toNat +
          if scriptPubKey.isPayToScriptHash then (scriptPubKey.getSigOpCountOf scriptSig).toNat
          else (scriptPubKey.getSigOpCount false).toNat := by
  constructor
  · have bound := (verifyScript_atMost env flags true scriptSig scriptPubKey).calls_le
    refine Nat.le_trans bound (Nat.add_le_add_left ?_ _)
    split
    · exact Nat.le_refl _
    rename_i other
    have own : scriptPubKey.getSigOpCountOf scriptSig = scriptPubKey.getSigOpCount true :=
      if_pos (by rw [Bool.eq_false_iff.mpr other, Bool.not_false])
    exact Nat.le_of_eq (congrArg UInt32.toNat own.symm)
  · exact (verifyScript_atMost env flags false scriptSig scriptPubKey).calls_le

/-- A checker that finds only its second call wrong: both signatures of two of three keys are
found in three calls, as many as are counted. -/
example :
    calls (verifyScript ⟨id, id, id, fun calls _ _ _ => some (calls != 1)⟩ SCRIPT_VERIFY_P2SH
      [0x00, 0x01, 0x07, 0x01, 0x08] [0x52, 0x01, 0x0a, 0x01, 0x0b, 0x01, 0x0c, 0x53, 0xae]) = 3 ∧
    getSigOpCount true [0x52, 0x01, 0x0a, 0x01, 0x0b, 0x01, 0x0c, 0x53, 0xae] = 3 := by
  decide +kernel

end Esbcoin
