import Esbcoin.Script.Opcodes

/-!
# Counting signature operations without running

`CScript::GetSigOpCount` and `CScript::IsPushOnly` (`src/script/script.cpp:165-211, 246-266`). The
counts are unsigned and wrap; over a script that is not too long to be run they are exact
(`toNat_getSigOpCount`).
-/

namespace Esbcoin.CScript

/-- `CScript::DecodeOP_N` (`script/script.h:530-537`) of `OP_1` to `OP_16`. -/
def decodeOP_N (opcode : UInt8) : Nat := opcode.toNat - 0x50

/-- What an opcode adds in `GetSigOpCount` (`script/script.cpp:175-184`). -/
def sigOps (fAccurate : Bool) (lastOpcode opcode : UInt8) : Nat :=
  match Op.ofByte opcode with
  | some .OP_CHECKSIG | some .OP_CHECKSIGVERIFY => 1
  | some .OP_CHECKMULTISIG | some .OP_CHECKMULTISIGVERIFY =>
    if fAccurate ∧ OP_1 ≤ lastOpcode ∧ lastOpcode ≤ OP_16 then decodeOP_N lastOpcode else 20
  | _ => 0

/-- The loop of `GetSigOpCount`; every turn reads a byte. -/
def getSigOpCountFrom (fAccurate : Bool) : Nat → UInt32 → UInt8 → CScript → UInt32
  | 0, n, _, _ => n
  | fuel + 1, n, lastOpcode, pc =>
    match pc.readOp with
    | none => n
    | some (opcode, _, rest) =>
      getSigOpCountFrom fAccurate fuel (n + UInt32.ofNat (sigOps fAccurate lastOpcode opcode))
        opcode rest

/-- `CScript::GetSigOpCount(bool fAccurate)` (`script/script.cpp:165-187`). -/
def getSigOpCount (fAccurate : Bool) (script : CScript) : UInt32 :=
  getSigOpCountFrom fAccurate script.length 0 OP_INVALIDOPCODE script

/-- The loop of `GetSigOpCount(scriptSig)`: what the script pushes last, behind `data`, unless it
fails to parse or does more than push. -/
def lastPush : Nat → List UInt8 → CScript → Option (List UInt8)
  | 0, data, _ => some data
  | fuel + 1, data, pc =>
    if pc.isEmpty then some data
    else
      match pc.readOp with
      | none => none
      | some (opcode, data, rest) => if opcode > OP_16 then none else lastPush fuel data rest

/-- `CScript::GetSigOpCount(const CScript& scriptSig)` (`script/script.cpp:189-211`). -/
def getSigOpCountOf (scriptPubKey scriptSig : CScript) : UInt32 :=
  if !scriptPubKey.isPayToScriptHash then scriptPubKey.getSigOpCount true
  else
    match lastPush scriptSig.length [] scriptSig with
    | none => 0
    | some data => getSigOpCount true data

/-- The loop of `IsPushOnly`; every turn reads a byte. -/
def isPushOnlyFrom : Nat → CScript → Bool
  | 0, _ => true
  | fuel + 1, pc =>
    if pc.isEmpty then true
    else
      match pc.readOp with
      | none => false
      | some (opcode, _, rest) => if opcode > OP_16 then false else isPushOnlyFrom fuel rest

/-- `CScript::IsPushOnly` (`script/script.cpp:246-266`). -/
def isPushOnly (script : CScript) : Bool := isPushOnlyFrom script.length script

/-! ## Exact counts -/

/-- The count of `GetSigOpCount`, as a number that does not wrap. -/
def exactSigOps (fAccurate : Bool) : Nat → UInt8 → CScript → Nat
  | 0, _, _ => 0
  | fuel + 1, lastOpcode, pc =>
    match pc.readOp with
    | none => 0
    | some (opcode, _, rest) =>
      sigOps fAccurate lastOpcode opcode + exactSigOps fAccurate fuel opcode rest

theorem decodeOP_N_le {opcode : UInt8} (small : opcode ≤ OP_16) : decodeOP_N opcode ≤ 16 := by
  rw [UInt8.le_iff_toNat_le, show OP_16.toNat = 96 from rfl] at small
  unfold decodeOP_N
  omega

variable (fAccurate : Bool)

theorem sigOps_le (lastOpcode opcode : UInt8) : sigOps fAccurate lastOpcode opcode ≤ 20 := by
  unfold sigOps
  split
  · omega
  · omega
  · split
    · rename_i small
      have few := decodeOP_N_le small.2.2
      omega
    · omega
  · split
    · rename_i small
      have few := decodeOP_N_le small.2.2
      omega
    · omega
  · omega

/-- The accurate count is the smaller one. -/
theorem sigOps_accurate_le (lastOpcode opcode : UInt8) (fAccurate : Bool) :
    sigOps true lastOpcode opcode ≤ sigOps fAccurate lastOpcode opcode := by
  cases fAccurate with
  | true => exact Nat.le_refl _
  | false =>
    have bound := sigOps_le true lastOpcode opcode
    unfold sigOps at bound ⊢
    split <;> simp_all

theorem exactSigOps_le (fuel : Nat) (lastOpcode : UInt8) (pc : CScript) :
    exactSigOps fAccurate fuel lastOpcode pc ≤ 20 * fuel := by
  induction fuel generalizing lastOpcode pc with
  | zero => exact Nat.le_refl 0
  | succ fuel ih =>
    rw [exactSigOps]
    split
    · exact Nat.zero_le _
    rename_i opcode vch rest read
    have here := sigOps_le fAccurate lastOpcode opcode
    have later := ih opcode rest
    omega

theorem exactSigOps_accurate_le (fuel : Nat) (lastOpcode : UInt8) (pc : CScript) :
    exactSigOps true fuel lastOpcode pc ≤ exactSigOps fAccurate fuel lastOpcode pc := by
  induction fuel generalizing lastOpcode pc with
  | zero => exact Nat.le_refl 0
  | succ fuel ih =>
    rw [exactSigOps, exactSigOps]
    split
    · exact Nat.le_refl 0
    · rename_i opcode vch rest read
      exact Nat.add_le_add (sigOps_accurate_le lastOpcode opcode fAccurate) (ih opcode rest)

theorem toNat_getSigOpCountFrom (fuel : Nat) (n : UInt32) (lastOpcode : UInt8) (pc : CScript) :
    (getSigOpCountFrom fAccurate fuel n lastOpcode pc).toNat =
      (n.toNat + exactSigOps fAccurate fuel lastOpcode pc) % 2 ^ 32 := by
  induction fuel generalizing n lastOpcode pc with
  | zero =>
    rw [getSigOpCountFrom, exactSigOps, Nat.add_zero, Nat.mod_eq_of_lt n.toNat_lt]
  | succ fuel ih =>
    rw [getSigOpCountFrom, exactSigOps]
    split
    · rw [Nat.add_zero, Nat.mod_eq_of_lt n.toNat_lt]
    · rw [ih, UInt32.toNat_add, UInt32.toNat_ofNat']
      omega

theorem toNat_getSigOpCount {script : CScript} (short : script.length ≤ 10000) :
    (script.getSigOpCount fAccurate).toNat =
      exactSigOps fAccurate script.length OP_INVALIDOPCODE script := by
  have bound := exactSigOps_le fAccurate script.length OP_INVALIDOPCODE script
  unfold getSigOpCount
  rw [toNat_getSigOpCountFrom]
  have zero : (0 : UInt32).toNat = 0 := rfl
  omega

end Esbcoin.CScript
