import Esbcoin.Script.Interpreter

/-!
# The signature checker of a transaction

`TransactionSignatureChecker` (`src/script/interpreter.cpp:1060-1084`) for an input of a
transaction. What it answers depends on the outpoints and sequences of the inputs, not on their
scripts, so neither does `VerifyScript`.
-/

namespace Esbcoin

open CTransactionSignatureSerializer

/-- The hash functions, and the check of a signature of a hash. -/
structure SigCrypto (H : Type) where
  ripemd160 : valtype → valtype
  sha1 : valtype → valtype
  sha256 : valtype → valtype
  ss : CHashWriter H
  /-- `CPubKey::Verify`. -/
  verify : valtype → H → valtype → Bool

/-- `CTransaction(tx)` (`primitives/transaction.cpp:139`) for a checker, which does not read the
hash of the transaction. -/
def CMutableTransaction.toTransaction (tx : CMutableTransaction) : CTransaction :=
  ⟨0, tx.nVersion, tx.vin, tx.vout, tx.nLockTime, tx.blob⟩

/-- Where an input is in a transaction, whatever its script: the outpoint and the sequence. -/
def CTxIn.place (txin : CTxIn) : COutPoint × UInt32 := (txin.prevout, txin.nSequence)

section Checker

variable {H : Type} (crypto : SigCrypto H)

/-- `TransactionSignatureChecker::CheckSig` (`interpreter.cpp:1065-1084`). -/
def transactionCheckSig (txTo : CTransaction) (nIn : Nat) (vchSigIn vchPubKey : valtype)
    (scriptCode : CScript) : Bool :=
  if !isValidPubKey vchPubKey then false
  else
    match vchSigIn.getLast? with
    | none => false
    | some nHashType =>
      crypto.verify vchPubKey (signatureHash crypto.ss scriptCode txTo nIn nHashType.toUInt32)
        vchSigIn.dropLast

/-- Scripts run with `MutableTransactionSignatureChecker(&tx, nIn)` (`interpreter.h:102-109`). -/
def mutableScriptEnv (tx : CMutableTransaction) (nIn : Nat) : ScriptEnv where
  ripemd160 := crypto.ripemd160
  sha1 := crypto.sha1
  sha256 := crypto.sha256
  checkSig _ vchSig vchPubKey scriptCode :=
    some (transactionCheckSig crypto tx.toTransaction nIn vchSig vchPubKey scriptCode)

/-- `VerifyScript` with the flags of the mixing pool (`obfuscation.cpp:943`). -/
def verifyMutable (scriptSig scriptPubKey : CScript) (tx : CMutableTransaction) (nIn : Nat) :
    Bool :=
  match verifyScript (mutableScriptEnv crypto tx nIn)
      (SCRIPT_VERIFY_P2SH ||| SCRIPT_VERIFY_STRICTENC) scriptSig scriptPubKey 0 with
  | .ok _ _ => true
  | .error _ _ => false

end Checker

/-- Two transactions are the same but for the scripts of their inputs. -/
structure CTransaction.SameButScripts (tx tx' : CTransaction) : Prop where
  nVersion : tx'.nVersion = tx.nVersion
  places : tx'.vin.map CTxIn.place = tx.vin.map CTxIn.place
  vout : tx'.vout = tx.vout
  nLockTime : tx'.nLockTime = tx.nLockTime

namespace CTransaction.SameButScripts

variable {tx tx' : CTransaction}

section

variable (same : tx.SameButScripts tx')
include same

theorem length_eq : tx'.vin.length = tx.vin.length := by
  have lengths := congrArg List.length same.places
  rwa [List.length_map, List.length_map] at lengths

/-- Two inputs at one position differ in their scripts only. -/
theorem getElem?_cases (n : Nat) :
    (tx'.vin[n]? = none ∧ tx.vin[n]? = none) ∨
      ∃ txin' txin, tx'.vin[n]? = some txin' ∧ tx.vin[n]? = some txin ∧
        txin'.place = txin.place := by
  have input : (tx'.vin.map CTxIn.place)[n]? = (tx.vin.map CTxIn.place)[n]? := by
    rw [same.places]
  rw [List.getElem?_map, List.getElem?_map] at input
  cases there' : tx'.vin[n]? with
  | none =>
    rw [there', Option.map_none, eq_comm, Option.map_eq_none_iff] at input
    exact Or.inl ⟨rfl, input⟩
  | some txin' =>
    rw [there', Option.map_some, eq_comm, Option.map_eq_some_iff] at input
    obtain ⟨txin, there, equal⟩ := input
    exact Or.inr ⟨txin', txin, rfl, there, equal.symm⟩

/-- The serialiser reads of an input what `place` keeps. -/
theorem serializeInput_eq (scriptCode : CScript) (nIn : Nat) (nHashType : UInt32) (nInput : Nat) :
    CTransactionSignatureSerializer.serializeInput ⟨tx', scriptCode, nIn, nHashType⟩ nInput =
      CTransactionSignatureSerializer.serializeInput ⟨tx, scriptCode, nIn, nHashType⟩ nInput := by
  unfold CTransactionSignatureSerializer.serializeInput
  have anyone : fAnyoneCanPay ⟨tx', scriptCode, nIn, nHashType⟩ =
      fAnyoneCanPay ⟨tx, scriptCode, nIn, nHashType⟩ := rfl
  rw [anyone]
  generalize fAnyoneCanPay ⟨tx, scriptCode, nIn, nHashType⟩ = any
  dsimp only
  rcases same.getElem?_cases (if any = true then nIn else nInput) with
    ⟨there', there⟩ | ⟨txin', txin, there', there, equal⟩
  · rw [there', there]
  obtain ⟨prevout, nSequence⟩ := Prod.mk.inj equal
  rw [there', there]
  simp only [prevout, nSequence]
  rfl

/-- What is signed does not depend on the scripts of the inputs. -/
theorem signatureHash_eq {H : Type} (ss : CHashWriter H) (scriptCode : CScript) (nIn : Nat)
    (nHashType : UInt32) :
    signatureHash ss scriptCode tx' nIn nHashType =
      signatureHash ss scriptCode tx nIn nHashType := by
  have inputs : CTransactionSignatureSerializer.serializeInput ⟨tx', scriptCode, nIn, nHashType⟩ =
      CTransactionSignatureSerializer.serializeInput ⟨tx, scriptCode, nIn, nHashType⟩ :=
    funext (same.serializeInput_eq scriptCode nIn nHashType)
  have outputs : serializeOutput ⟨tx', scriptCode, nIn, nHashType⟩ =
      serializeOutput ⟨tx, scriptCode, nIn, nHashType⟩ := by
    funext nOutput
    unfold serializeOutput
    simp only [same.vout]
    rfl
  have nInputs : CTransactionSignatureSerializer.nInputs ⟨tx', scriptCode, nIn, nHashType⟩ =
      CTransactionSignatureSerializer.nInputs ⟨tx, scriptCode, nIn, nHashType⟩ := by
    unfold CTransactionSignatureSerializer.nInputs
    simp only [same.length_eq]
    rfl
  have nOutputs : CTransactionSignatureSerializer.nOutputs ⟨tx', scriptCode, nIn, nHashType⟩ =
      CTransactionSignatureSerializer.nOutputs ⟨tx, scriptCode, nIn, nHashType⟩ := by
    unfold CTransactionSignatureSerializer.nOutputs
    simp only [same.vout]
    rfl
  have whole : CTransactionSignatureSerializer.serialize ⟨tx', scriptCode, nIn, nHashType⟩ =
      CTransactionSignatureSerializer.serialize ⟨tx, scriptCode, nIn, nHashType⟩ := by
    unfold CTransactionSignatureSerializer.serialize
    rw [inputs, outputs, nInputs, nOutputs]
    simp only [same.nVersion, same.nLockTime]
  unfold signatureHash
  simp only [same.length_eq, same.vout, whole]

end

end CTransaction.SameButScripts

/-- An input verifies in a transaction whatever the scripts of the inputs of that transaction. -/
theorem verifyMutable_congr {H : Type} (crypto : SigCrypto H) {tx tx' : CMutableTransaction}
    (same : tx.toTransaction.SameButScripts tx'.toTransaction) (scriptSig scriptPubKey : CScript)
    (nIn : Nat) :
    verifyMutable crypto scriptSig scriptPubKey tx' nIn =
      verifyMutable crypto scriptSig scriptPubKey tx nIn := by
  have checker : mutableScriptEnv crypto tx' nIn = mutableScriptEnv crypto tx nIn := by
    unfold mutableScriptEnv transactionCheckSig
    simp only [same.signatureHash_eq]
  unfold verifyMutable
  rw [checker]

end Esbcoin
