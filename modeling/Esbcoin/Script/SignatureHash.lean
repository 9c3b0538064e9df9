import Esbcoin.Destination
import Esbcoin.Serialize

/-!
# What a signature signs

`CTransactionSignatureSerializer` and `SignatureHash` (`src/script/interpreter.cpp:937-1058`), with
the `SignatureHashOld` of `src/test/sighash_tests.cpp:23-82` beside it. The first writes the pieces
of the signed transaction as it goes, the second builds that transaction. Vectors hold fewer than
2^32 elements, so that a count is its number.
-/

namespace Esbcoin

open Bytes List

/-- `OP_CODESEPARATOR` (`script/script.h:146`). -/
def CScript.OP_CODESEPARATOR : UInt8 := 0xab

/-- `SIGHASH_ALL` (`script/interpreter.h:24`). -/
def SIGHASH_ALL : UInt32 := 1

/-- `SIGHASH_NONE` (`script/interpreter.h:25`). -/
def SIGHASH_NONE : UInt32 := 2

/-- `SIGHASH_SINGLE` (`script/interpreter.h:26`). -/
def SIGHASH_SINGLE : UInt32 := 3

/-- `SIGHASH_ANYONECANPAY` (`script/interpreter.h:27`). -/
def SIGHASH_ANYONECANPAY : UInt32 := 0x80

/-! ## Code separators -/

namespace CScript

/-- The script is read to its end without a failure of `GetOp`. -/
inductive Parses : CScript → Prop where
  | nil : Parses []
  | op {script rest : CScript} {opcode : UInt8} {vch : List UInt8} :
      script.readOp = some (opcode, vch, rest) → Parses rest → Parses script

/-- The script up to where the rest begins. -/
def upTo (script rest : CScript) : CScript := script.take (script.length - rest.length)

/-- The loop that counts the separators (`interpreter.cpp:966-969`); every turn reads a byte. -/
def nCodeSeparators : Nat → CScript → Nat
  | 0, _ => 0
  | fuel + 1, it =>
    match it.readOp with
    | none => 0
    | some (opcode, _, rest) =>
      (if opcode = OP_CODESEPARATOR then 1 else 0) + nCodeSeparators fuel rest

/-- The loop that writes what is between the separators (`interpreter.cpp:971-979`): `chunk` lies
between `itBegin` and `it`. Where `GetOp` fails, `it` is behind what it read. -/
def writeCode : Nat → List UInt8 → CScript → List UInt8
  | 0, chunk, _ => chunk
  | fuel + 1, chunk, it =>
    match it.readOp with
    | none => chunk ++ it.upTo it.getOp.2
    | some (opcode, _, rest) =>
      if opcode = OP_CODESEPARATOR then chunk ++ writeCode fuel [] rest
      else writeCode fuel (chunk ++ it.upTo rest) rest

/-- The inner loop of `FindAndDelete` (`script/script.h:553-557`): the copies of `b` that are
erased. -/
def eraseCopies (b : CScript) : Nat → CScript → Nat × CScript
  | 0, pc => (0, pc)
  | fuel + 1, pc =>
    if b.isPrefixOf pc then
      let (nFound, pc) := eraseCopies b fuel (pc.drop b.length)
      (nFound + 1, pc)
    else (0, pc)

/-- The outer loop of `FindAndDelete` (`script/script.h:551-559`). -/
def findAndDeleteFrom (b : CScript) : Nat → CScript → Nat × CScript
  | 0, pc => (0, pc)
  | fuel + 1, pc =>
    let (nFound, pc) := eraseCopies b pc.length pc
    match pc.readOp with
    | none => (nFound, pc)
    | some (_, _, rest) =>
      let (more, kept) := findAndDeleteFrom b fuel rest
      (nFound + more, pc.upTo rest ++ kept)

/-- `CScript::FindAndDelete` (`script/script.h:545-562`): how many copies were deleted, and the
script without them. -/
def findAndDelete (script b : CScript) : Nat × CScript :=
  if b.isEmpty then (0, script) else findAndDeleteFrom b script.length script

/-- What is read is in front of the rest, with the opcode first. -/
theorem readOp_split {script rest : CScript} {opcode : UInt8} {vch : List UInt8}
    (read : script.readOp = some (opcode, vch, rest)) :
    ∃ operand, script = opcode :: operand ++ rest ∧ (OP_PUSHDATA4 < opcode → operand = []) := by
  cases script with
  | nil => cases read
  | cons first pc =>
    have sizes : ∀ nSize behind, pushSize first pc = some (nSize, behind) →
        ∃ size, pc = size ++ behind := by
      intro nSize behind sized
      unfold pushSize at sized
      split at sized
      · cases sized
        exact ⟨[], rfl⟩
      split at sized
      · split at sized
        · cases sized
          exact ⟨[_], rfl⟩
        · cases sized
      split at sized
      · split at sized
        · cases sized
          exact ⟨[_, _], rfl⟩
        · cases sized
      split at sized
      · cases sized
        exact ⟨[_, _, _, _], rfl⟩
      · cases sized
    simp only [readOp] at read
    by_cases push : first ≤ OP_PUSHDATA4
    · rw [if_pos push] at read
      cases sized : pushSize first pc with
      | none =>
        rw [sized] at read
        cases read
      | some pair =>
        obtain ⟨nSize, behind⟩ := pair
        obtain ⟨size, rfl⟩ := sizes nSize behind sized
        rw [sized] at read
        simp only at read
        split at read
        · cases read
        cases read
        refine ⟨size ++ behind.take nSize, ?_, ?_⟩
        · rw [cons_append, append_assoc, take_append_drop]
        · intro above
          exact absurd push (UInt8.not_le.mpr above)
    · rw [if_neg push] at read
      cases read
      exact ⟨[], rfl, fun _ => rfl⟩

theorem upTo_append (read rest : CScript) : upTo (read ++ rest) rest = read := by
  unfold upTo
  rw [length_append, Nat.add_sub_cancel, take_left]

/-- A script that is read to its end is written, counted and cleaned by the same pieces. -/
theorem Parses.cleaned {it : CScript} (parses : Parses it) : ∃ clean : CScript,
    (∀ fuel chunk, it.length ≤ fuel → writeCode fuel chunk it = chunk ++ clean) ∧
      (∀ fuel, it.length ≤ fuel → nCodeSeparators fuel it + clean.length = it.length) ∧
      ∀ fuel, it.length ≤ fuel → (findAndDeleteFrom [OP_CODESEPARATOR] fuel it).2 = clean := by
  induction parses with
  | nil =>
    refine ⟨[], ?_, ?_, ?_⟩
    · rintro (_ | fuel) chunk -
      · exact (append_nil chunk).symm
      · rfl
    · rintro (_ | fuel) -
      · rfl
      · rfl
    · rintro (_ | fuel) -
      · rfl
      · rfl
  | @op script rest opcode vch read _ ih =>
    obtain ⟨clean, writes, counts, deletes⟩ := ih
    obtain ⟨operand, rfl, short⟩ := readOp_split read
    have piece := upTo_append (opcode :: operand) rest
    by_cases separator : opcode = OP_CODESEPARATOR
    · obtain rfl : operand = [] := short (by rw [separator]; decide)
      subst separator
      have length : ([OP_CODESEPARATOR] ++ rest).length = rest.length + 1 := by simp
      refine ⟨clean, ?_, ?_, ?_⟩
      · rintro (_ | fuel) chunk enough
        · omega
        · rw [writeCode, read]
          simp only [if_true]
          rw [writes fuel [] (by omega), nil_append]
      · rintro (_ | fuel) enough
        · omega
        rw [nCodeSeparators, read]
        simp only [if_true]
        have rest := counts fuel (by omega)
        omega
      rintro (_ | fuel) enough
      · omega
      have same : (findAndDeleteFrom [OP_CODESEPARATOR] (fuel + 1)
          ([OP_CODESEPARATOR] ++ rest)).2 =
          (findAndDeleteFrom [OP_CODESEPARATOR] (fuel + 1) rest).2 := by
        have erased : eraseCopies [OP_CODESEPARATOR] ([OP_CODESEPARATOR] ++ rest).length
            ([OP_CODESEPARATOR] ++ rest) =
            ((eraseCopies [OP_CODESEPARATOR] rest.length rest).1 + 1,
              (eraseCopies [OP_CODESEPARATOR] rest.length rest).2) := by
          rfl
        unfold findAndDeleteFrom
        rw [erased]
        cases eraseCopies [OP_CODESEPARATOR] rest.length rest with
        | mk nFound pc =>
          cases next : pc.readOp with
          | none => simp only [next]
          | some triple => simp only [next]
      rw [same]
      exact deletes (fuel + 1) (by omega)
    · have length : (opcode :: operand ++ rest).length = (opcode :: operand).length + rest.length :=
        length_append
      have longer : 1 ≤ (opcode :: operand).length := by simp
      refine ⟨opcode :: operand ++ clean, ?_, ?_, ?_⟩
      · rintro (_ | fuel) chunk enough
        · omega
        · rw [writeCode, read]
          simp only [if_neg separator]
          rw [piece, writes fuel _ (by omega), append_assoc]
      · rintro (_ | fuel) enough
        · omega
        rw [nCodeSeparators, read]
        simp only [if_neg separator]
        have rest := counts fuel (by omega)
        rw [length_append]
        omega
      · rintro (_ | fuel) enough
        · omega
        have kept : eraseCopies [OP_CODESEPARATOR] (opcode :: operand ++ rest).length
            (opcode :: operand ++ rest) = (0, opcode :: operand ++ rest) := by
          rw [cons_append, length_cons, eraseCopies, if_neg]
          simpa using fun equal => separator equal.symm
        unfold findAndDeleteFrom
        rw [kept]
        simp only [read]
        rw [piece, deletes fuel (by omega)]

end CScript

/-! ## The serialiser -/

/-- `CTransactionSignatureSerializer` (`interpreter.cpp:943-1032`). -/
structure CTransactionSignatureSerializer where
  txTo : CTransaction
  scriptCode : CScript
  nIn : Nat
  nHashType : UInt32

namespace CTransactionSignatureSerializer

variable (s : CTransactionSignatureSerializer)

/-- `fAnyoneCanPay` (`interpreter.cpp:955`). -/
def fAnyoneCanPay : Bool := s.nHashType &&& SIGHASH_ANYONECANPAY != 0

/-- `fHashSingle` (`interpreter.cpp:956`). -/
def fHashSingle : Bool := s.nHashType &&& 0x1f == SIGHASH_SINGLE

/-- `fHashNone` (`interpreter.cpp:957`). -/
def fHashNone : Bool := s.nHashType &&& 0x1f == SIGHASH_NONE

/-- `SerializeScriptCode` (`interpreter.cpp:959-980`). -/
def serializeScriptCode : List UInt8 :=
  let size := s.scriptCode.length
  compactSize (size - CScript.nCodeSeparators size s.scriptCode) ++
    CScript.writeCode size [] s.scriptCode

/-- `SerializeInput` (`interpreter.cpp:982-1002`); no input is read that is not there. -/
def serializeInput (nInput : Nat) : List UInt8 :=
  let nInput := if s.fAnyoneCanPay then s.nIn else nInput
  match s.txTo.vin[nInput]? with
  | none => []
  | some txin =>
    txin.prevout.serialize ++
      (if nInput ≠ s.nIn then sizedBytes [] else s.serializeScriptCode) ++
      littleEndian 4
        (if nInput ≠ s.nIn ∧ (s.fHashSingle || s.fHashNone) then 0 else txin.nSequence.toNat)

/-- `SerializeOutput` (`interpreter.cpp:1004-1012`); no output is read that is not there. -/
def serializeOutput (nOutput : Nat) : List UInt8 :=
  if s.fHashSingle ∧ nOutput ≠ s.nIn then CTxOut.null.serialize
  else
    match s.txTo.vout[nOutput]? with
    | none => []
    | some out => out.serialize

/-- `nInputs` (`interpreter.cpp:1020`). -/
def nInputs : Nat := if s.fAnyoneCanPay then 1 else s.txTo.vin.length

/-- `nOutputs` (`interpreter.cpp:1025`). -/
def nOutputs : Nat :=
  if s.fHashNone then 0 else if s.fHashSingle then s.nIn + 1 else s.txTo.vout.length

/-- `Serialize` (`interpreter.cpp:1014-1031`). -/
def serialize : List UInt8 :=
  signedBytes 4 s.txTo.nVersion ++
    (compactSize s.nInputs ++ (List.range s.nInputs).flatMap s.serializeInput) ++
    (compactSize s.nOutputs ++ (List.range s.nOutputs).flatMap s.serializeOutput) ++
    littleEndian 4 s.txTo.nLockTime.toNat

end CTransactionSignatureSerializer

/-- A hash function: what `CHashWriter::GetHash` gives for bytes, and the `uint256` 1. -/
structure CHashWriter (H : Type) where
  getHash : List UInt8 → H
  one : H

/-- `SignatureHash` (`interpreter.cpp:1036-1058`). -/
def signatureHash {H : Type} (ss : CHashWriter H) (scriptCode : CScript) (txTo : CTransaction)
    (nIn : Nat) (nHashType : UInt32) : H :=
  if nIn ≥ txTo.vin.length then ss.one
  else if nHashType &&& 0x1f = SIGHASH_SINGLE ∧ nIn ≥ txTo.vout.length then ss.one
  else
    let txTmp : CTransactionSignatureSerializer := { txTo, scriptCode, nIn, nHashType }
    ss.getHash (txTmp.serialize ++ littleEndian 4 nHashType.toNat)

/-! ## The reference -/

/-- `CMutableTransaction` (`primitives/transaction.h:289-316`). -/
structure CMutableTransaction where
  nVersion : Int
  vin : List CTxIn
  vout : List CTxOut
  nLockTime : UInt32
  blob : List UInt8
deriving DecidableEq

namespace CMutableTransaction

/-- `CMutableTransaction(const CTransaction&)` (`primitives/transaction.cpp:108`). -/
def ofTransaction (tx : CTransaction) : CMutableTransaction :=
  ⟨tx.nVersion, tx.vin, tx.vout, tx.nLockTime, tx.blob⟩

/-- A transaction as bytes. -/
def serializePlain (tx : CMutableTransaction) : List UInt8 :=
  signedBytes 4 tx.nVersion ++ sizedElements CTxIn.serialize tx.vin ++
    sizedElements CTxOut.serialize tx.vout ++ littleEndian 4 tx.nLockTime.toNat

/-- The other inputs are signed with sequence 0 (`sighash_tests.cpp:46-48`, `:65-67`). -/
def zeroSequences (nIn : Nat) (tx : CMutableTransaction) : CMutableTransaction :=
  { tx with
    vin := tx.vin.mapIdx fun i txin => if i ≠ nIn then { txin with nSequence := 0 } else txin }

/-- The inputs of the copy (`sighash_tests.cpp:35-38`). -/
def blankInputs (scriptCode : CScript) (nIn : Nat) (tx : CMutableTransaction) :
    CMutableTransaction :=
  { tx with
    vin := tx.vin.mapIdx fun i txin =>
      { txin with scriptSig := if i = nIn then scriptCode else [] } }

/-- The outputs of the copy, and its sequences (`sighash_tests.cpp:41-68`). -/
def blankOutputs (nIn : Nat) (nHashType : UInt32) (tx : CMutableTransaction) :
    Option CMutableTransaction :=
  if nHashType &&& 0x1f = SIGHASH_NONE then some ({ tx with vout := [] }.zeroSequences nIn)
  else if nHashType &&& 0x1f = SIGHASH_SINGLE then
    if nIn ≥ tx.vout.length then none
    else
      let vout := tx.vout.take (nIn + 1)
      some ({ tx with
        vout := vout.mapIdx fun i out => if i < nIn then CTxOut.null else out }.zeroSequences nIn)
  else some tx

/-- Only the signed input is kept (`sighash_tests.cpp:71-75`). -/
def keepInput (nIn : Nat) (nHashType : UInt32) (tx : CMutableTransaction) : CMutableTransaction :=
  if nHashType &&& SIGHASH_ANYONECANPAY ≠ 0 then { tx with vin := tx.vin[nIn]?.toList } else tx

end CMutableTransaction

/-- The transaction that `SignatureHashOld` builds (`sighash_tests.cpp:23-75`); `none` where it
returns 1. -/
def signatureHashOldTx (scriptCode : CScript) (txTo : CTransaction) (nIn : Nat)
    (nHashType : UInt32) : Option CMutableTransaction :=
  if nIn ≥ txTo.vin.length then none
  else
    let scriptCode := (scriptCode.findAndDelete [CScript.OP_CODESEPARATOR]).2
    let txTmp := (CMutableTransaction.ofTransaction txTo).blankInputs scriptCode nIn
    (txTmp.blankOutputs nIn nHashType).map (CMutableTransaction.keepInput nIn nHashType)

/-! ## The two agree -/

section Agree

variable {scriptCode clean : CScript} {txTo : CTransaction} {nIn : Nat} {nHashType : UInt32}

/-- An input as it is signed, before any is dropped. -/
def signedInput (clean : CScript) (nIn : Nat) (nHashType : UInt32) (i : Nat) (txin : CTxIn) :
    CTxIn where
  prevout := txin.prevout
  scriptSig := if i = nIn then clean else []
  nSequence :=
    if i ≠ nIn ∧ (nHashType &&& 0x1f = SIGHASH_SINGLE ∨ nHashType &&& 0x1f = SIGHASH_NONE) then 0
    else txin.nSequence

/-- The outputs that a hash type signs. -/
def signedOutputs (nIn : Nat) (nHashType : UInt32) (vout : List CTxOut) : List CTxOut :=
  if nHashType &&& 0x1f = SIGHASH_NONE then []
  else if nHashType &&& 0x1f = SIGHASH_SINGLE then
    (vout.take (nIn + 1)).mapIdx fun i out => if i < nIn then CTxOut.null else out
  else vout

theorem signedInput_of_locked (notNone : nHashType &&& 0x1f ≠ SIGHASH_NONE)
    (notSingle : nHashType &&& 0x1f ≠ SIGHASH_SINGLE) :
    signedInput clean nIn nHashType =
      fun i txin => { txin with scriptSig := if i = nIn then clean else [] } := by
  funext i txin
  simp [signedInput, notNone, notSingle]

theorem signedInput_of_free (free : nHashType &&& 0x1f = SIGHASH_SINGLE ∨
      nHashType &&& 0x1f = SIGHASH_NONE) :
    signedInput clean nIn nHashType = fun i => (fun txin : CTxIn =>
      if i ≠ nIn then { txin with nSequence := 0 } else txin) ∘ fun txin : CTxIn =>
        { txin with scriptSig := if i = nIn then clean else [] } := by
  funext i txin
  by_cases own : i = nIn
  · simp [signedInput, own]
  · simp [signedInput, own, free]

theorem blankOutputs_eq (tx : CMutableTransaction)
    (single : nHashType &&& 0x1f = SIGHASH_SINGLE → nIn < tx.vout.length) :
    (tx.blankInputs clean nIn).blankOutputs nIn nHashType = some { tx with
      vin := tx.vin.mapIdx (signedInput clean nIn nHashType)
      vout := signedOutputs nIn nHashType tx.vout } := by
  unfold CMutableTransaction.blankOutputs signedOutputs
  by_cases none : nHashType &&& 0x1f = SIGHASH_NONE
  · rw [if_pos none, if_pos none, signedInput_of_free (Or.inr none)]
    simp only [CMutableTransaction.zeroSequences, CMutableTransaction.blankInputs,
      mapIdx_mapIdx]
  rw [if_neg none, if_neg none]
  by_cases one : nHashType &&& 0x1f = SIGHASH_SINGLE
  · have below : ¬ nIn ≥ (tx.blankInputs clean nIn).vout.length := Nat.not_le.mpr (single one)
    rw [if_pos one, if_pos one, if_neg below, signedInput_of_free (Or.inl one)]
    simp only [CMutableTransaction.zeroSequences, CMutableTransaction.blankInputs,
      mapIdx_mapIdx]
  · rw [if_neg one, if_neg one, signedInput_of_locked none one]
    rfl

/-- What the reference builds. -/
theorem signatureHashOldTx_eq (inRange : nIn < txTo.vin.length)
    (single : nHashType &&& 0x1f = SIGHASH_SINGLE → nIn < txTo.vout.length)
    (deletes : (scriptCode.findAndDelete [CScript.OP_CODESEPARATOR]).2 = clean) :
    signatureHashOldTx scriptCode txTo nIn nHashType = some
      { nVersion := txTo.nVersion
        vin := if nHashType &&& SIGHASH_ANYONECANPAY ≠ 0 then
            (txTo.vin.mapIdx (signedInput clean nIn nHashType))[nIn]?.toList
          else txTo.vin.mapIdx (signedInput clean nIn nHashType)
        vout := signedOutputs nIn nHashType txTo.vout
        nLockTime := txTo.nLockTime
        blob := txTo.blob } := by
  have outputs := @blankOutputs_eq clean nIn nHashType (CMutableTransaction.ofTransaction txTo)
    single
  unfold signatureHashOldTx
  rw [if_neg (by omega), deletes]
  refine (congrArg (Option.map (CMutableTransaction.keepInput nIn nHashType)) outputs).trans ?_
  rw [Option.map_some]
  unfold CMutableTransaction.keepInput
  by_cases anyone : nHashType &&& SIGHASH_ANYONECANPAY ≠ 0
  · rw [if_pos anyone, if_pos anyone]
    rfl
  · rw [if_neg anyone, if_neg anyone]
    rfl

/-- What is written for the script code is the script that the reference signs. -/
theorem serializeScriptCode_eq (parses : scriptCode.Parses) :
    ∃ clean, (scriptCode.findAndDelete [CScript.OP_CODESEPARATOR]).2 = clean ∧
      CTransactionSignatureSerializer.serializeScriptCode ⟨txTo, scriptCode, nIn, nHashType⟩ =
        sizedBytes clean := by
  obtain ⟨clean, writes, counts, deletes⟩ := parses.cleaned
  refine ⟨clean, deletes _ (Nat.le_refl _), ?_⟩
  have written := writes scriptCode.length [] (Nat.le_refl _)
  have counted := counts scriptCode.length (Nat.le_refl _)
  have size : scriptCode.length - CScript.nCodeSeparators scriptCode.length scriptCode =
      clean.length := by omega
  unfold CTransactionSignatureSerializer.serializeScriptCode sizedBytes
  simp only
  rw [written, size, nil_append]

/-- The piece of an input. -/
theorem serializeInput_eq
    (code : CTransactionSignatureSerializer.serializeScriptCode
      ⟨txTo, scriptCode, nIn, nHashType⟩ = sizedBytes clean)
    {i nInput : Nat} {txin : CTxIn} (here : txTo.vin[i]? = some txin)
    (index : i = if nHashType &&& SIGHASH_ANYONECANPAY ≠ 0 then nIn else nInput) :
    CTransactionSignatureSerializer.serializeInput ⟨txTo, scriptCode, nIn, nHashType⟩ nInput =
      (signedInput clean nIn nHashType i txin).serialize := by
  have flag : (if (⟨txTo, scriptCode, nIn, nHashType⟩ :
      CTransactionSignatureSerializer).fAnyoneCanPay = true then nIn else nInput) = i := by
    rw [index]
    simp [CTransactionSignatureSerializer.fAnyoneCanPay]
  unfold CTransactionSignatureSerializer.serializeInput CTxIn.serialize
  simp only [flag, here, code]
  unfold signedInput CTransactionSignatureSerializer.fHashSingle
    CTransactionSignatureSerializer.fHashNone
  by_cases own : i = nIn
  · simp [own]
  · by_cases free : nHashType &&& 0x1f = SIGHASH_SINGLE ∨ nHashType &&& 0x1f = SIGHASH_NONE
    · simp [own, free]
    · simp [own, free]

/-- The pieces of the outputs. -/
theorem serializeOutputs_eq
    (single : nHashType &&& 0x1f = SIGHASH_SINGLE → nIn < txTo.vout.length) :
    let s : CTransactionSignatureSerializer := ⟨txTo, scriptCode, nIn, nHashType⟩
    compactSize s.nOutputs ++ (List.range s.nOutputs).flatMap s.serializeOutput =
      sizedElements CTxOut.serialize (signedOutputs nIn nHashType txTo.vout) := by
  intro s
  have isNone : s.fHashNone = true ↔ nHashType &&& 0x1f = SIGHASH_NONE := beq_iff_eq
  have isSingle : s.fHashSingle = true ↔ nHashType &&& 0x1f = SIGHASH_SINGLE := beq_iff_eq
  unfold CTransactionSignatureSerializer.nOutputs signedOutputs sizedElements
  by_cases none : nHashType &&& 0x1f = SIGHASH_NONE
  · rw [if_pos (isNone.mpr none), if_pos none]
    rfl
  rw [if_neg (mt isNone.mp none), if_neg none]
  by_cases one : nHashType &&& 0x1f = SIGHASH_SINGLE
  · have below := single one
    have size : (txTo.vout.take (nIn + 1)).length = nIn + 1 := by
      rw [length_take]
      omega
    rw [if_pos (isSingle.mpr one), if_pos one, length_mapIdx, size]
    congr 1
    refine flatMap_range_eq (by rw [length_mapIdx, size]) ?_
    intro i out here
    rw [List.getElem?_mapIdx, Option.map_eq_some_iff] at here
    obtain ⟨old, there, rfl⟩ := here
    rw [List.getElem?_take] at there
    unfold CTransactionSignatureSerializer.serializeOutput
    split at there
    · by_cases own : i = nIn
      · subst own
        simp [s, there]
      · have before : i < nIn := by omega
        simp [s, isSingle.mpr one, own, before]
    · cases there
  · rw [if_neg (mt isSingle.mp one), if_neg one]
    congr 1
    refine flatMap_range_eq rfl ?_
    intro i out here
    unfold CTransactionSignatureSerializer.serializeOutput
    simp [mt isSingle.mp one, s, here]

end Agree

/-- The bytes that the serialiser writes are those of the transaction that the reference builds. -/
theorem serialize_eq_reference (scriptCode : CScript) (parses : scriptCode.Parses)
    (txTo : CTransaction) (nIn : Nat) (nHashType : UInt32) (inRange : nIn < txTo.vin.length)
    (single : nHashType &&& 0x1f = SIGHASH_SINGLE → nIn < txTo.vout.length) :
    (signatureHashOldTx scriptCode txTo nIn nHashType).map CMutableTransaction.serializePlain =
      some (CTransactionSignatureSerializer.serialize ⟨txTo, scriptCode, nIn, nHashType⟩) := by
  obtain ⟨clean, deletes, code⟩ := @serializeScriptCode_eq scriptCode txTo nIn nHashType parses
  have outputs := @serializeOutputs_eq scriptCode txTo nIn nHashType single
  rw [signatureHashOldTx_eq inRange single deletes, Option.map_some, Option.some_inj]
  unfold CMutableTransaction.serializePlain CTransactionSignatureSerializer.serialize
  rw [outputs]
  congr 3
  unfold sizedElements CTransactionSignatureSerializer.nInputs
  by_cases anyone : nHashType &&& SIGHASH_ANYONECANPAY ≠ 0
  · obtain ⟨txin, here⟩ : ∃ txin, txTo.vin[nIn]? = some txin := ⟨_, List.getElem?_eq_getElem inRange⟩
    have flag : (⟨txTo, scriptCode, nIn, nHashType⟩ :
        CTransactionSignatureSerializer).fAnyoneCanPay = true := bne_iff_ne.mpr anyone
    rw [if_pos anyone, if_pos flag, List.getElem?_mapIdx, here]
    simp only [Option.map_some, Option.toList_some, length_singleton, range_one,
      flatMap_singleton]
    rw [serializeInput_eq code here (by rw [if_pos anyone])]
  have flag : ¬ (⟨txTo, scriptCode, nIn, nHashType⟩ :
      CTransactionSignatureSerializer).fAnyoneCanPay = true := mt bne_iff_ne.mp anyone
  rw [if_neg anyone, if_neg flag, length_mapIdx]
  congr 1
  symm
  refine flatMap_range_eq (by rw [length_mapIdx]) ?_
  intro i txin here
  rw [List.getElem?_mapIdx, Option.map_eq_some_iff] at here
  obtain ⟨old, there, rfl⟩ := here
  exact serializeInput_eq code there (by rw [if_neg anyone])

/-- A script with a separator, and a transaction of two inputs and one output. -/
def sampleCode : CScript := [0x51, 0xab, 0xac]

theorem sampleCode_parses : sampleCode.Parses := .op rfl (.op rfl (.op rfl .nil))

def sampleSpend (blob scriptSig : List UInt8) : CTransaction where
  hash := 5
  nVersion := 1
  vin := [{ prevout := ⟨3, 0⟩, scriptSig }, { prevout := ⟨4, 1⟩, scriptSig, nSequence := 7 }]
  vout := [⟨COIN, [0x51]⟩]
  nLockTime := 0
  blob

/-- The single output of the sample is signed with its input, by anyone. -/
theorem sample_signed_alone :
    (signatureHashOldTx sampleCode (sampleSpend [] [0x01]) 0 0x83).map
        CMutableTransaction.serializePlain =
      some (CTransactionSignatureSerializer.serialize
        ⟨sampleSpend [] [0x01], sampleCode, 0, 0x83⟩) :=
  serialize_eq_reference sampleCode sampleCode_parses (sampleSpend [] [0x01]) 0 0x83 (by decide)
    (fun _ => by decide)

/-! ## What a signature of all commits to -/

/-- A transaction whose fields are in the ranges of their types. -/
structure SizedTransaction extends CTransaction where
  versionSized : -2 ^ 31 ≤ nVersion ∧ nVersion < 2 ^ 31
  inputsSized : vin.length < 2 ^ 64
  outputsSized : vout.length < 2 ^ 64 ∧ ∀ out ∈ vout, out.Sized

/-- The transaction with other input scripts. -/
def CTransaction.withScriptSigs (tx : CTransaction) (scriptSigs : Nat → CScript) : CTransaction :=
  { tx with vin := tx.vin.mapIdx fun i txin => { txin with scriptSig := scriptSigs i } }

/-- `CTransaction::UpdateHash` (`primitives/transaction.cpp:132-135`). -/
def CTransaction.txid {H : Type} (ss : CHashWriter H) (tx : CTransaction) : H :=
  ss.getHash tx.serialize

/-- Two transactions are equal up to their scripts and what is not signed. -/
structure SameSigned (tx tx' : CTransaction) : Prop where
  nVersion : tx.nVersion = tx'.nVersion
  inputs : (tx.withScriptSigs fun _ => []).vin = (tx'.withScriptSigs fun _ => []).vin
  vout : tx.vout = tx'.vout
  nLockTime : tx.nLockTime = tx'.nLockTime

/-- Two transactions are equal in all fields but the scripts of the inputs, and so are their
hashes. -/
structure SameButScriptSigs (tx tx' : CTransaction) : Prop extends SameSigned tx tx' where
  blob : tx.blob = tx'.blob
  txid : ∀ {H : Type} (ss : CHashWriter H) (scriptSigs : Nat → CScript),
    (tx.withScriptSigs scriptSigs).txid ss = (tx'.withScriptSigs scriptSigs).txid ss

section Commits

variable {scriptCode : CScript} {nIn : Nat}

/-- The serializer of `SIGHASH_ALL`. -/
def signsAll (scriptCode : CScript) (nIn : Nat) (txTo : CTransaction) :
    CTransactionSignatureSerializer := ⟨txTo, scriptCode, nIn, SIGHASH_ALL⟩

@[simp] theorem fAnyoneCanPay_signsAll (txTo : CTransaction) :
    (signsAll scriptCode nIn txTo).fAnyoneCanPay = false := by
  show (SIGHASH_ALL &&& SIGHASH_ANYONECANPAY != 0) = false
  decide

@[simp] theorem fHashSingle_signsAll (txTo : CTransaction) :
    (signsAll scriptCode nIn txTo).fHashSingle = false := by
  show (SIGHASH_ALL &&& 0x1f == SIGHASH_SINGLE) = false
  decide

@[simp] theorem fHashNone_signsAll (txTo : CTransaction) :
    (signsAll scriptCode nIn txTo).fHashNone = false := by
  show (SIGHASH_ALL &&& 0x1f == SIGHASH_NONE) = false
  decide

theorem inputs_eq_of {vin vin' : List CTxIn} (length : vin.length = vin'.length)
    (same : ∀ (i : Nat) (txin txin' : CTxIn), vin[i]? = some txin → vin'[i]? = some txin' →
      txin.prevout = txin'.prevout ∧ txin.nSequence = txin'.nSequence) (scriptSigs : Nat → CScript) :
    (vin.mapIdx fun i txin => { txin with scriptSig := scriptSigs i }) =
      vin'.mapIdx fun i txin => { txin with scriptSig := scriptSigs i } := by
  apply ext_getElem
  · simpa using length
  intro i below below'
  have inside : i < vin.length := by simpa using below
  have inside' : i < vin'.length := by simpa using below'
  obtain ⟨prevout, sequence⟩ := same i _ _ (List.getElem?_eq_getElem inside)
    (List.getElem?_eq_getElem inside')
  simp only [getElem_mapIdx]
  rw [prevout, sequence]

/-- The piece of an input that is there. -/
theorem serializeInput_signsAll {txTo : CTransaction} {i : Nat} {txin : CTxIn}
    (here : txTo.vin[i]? = some txin) : (signsAll scriptCode nIn txTo).serializeInput i =
      txin.prevout.serialize ++ ((if i ≠ nIn then sizedBytes [] else
        (signsAll scriptCode nIn txTo).serializeScriptCode) ++
          littleEndian 4 txin.nSequence.toNat) := by
  have vin : (signsAll scriptCode nIn txTo).txTo.vin[i]? = some txin := here
  unfold CTransactionSignatureSerializer.serializeInput
  simp only [fAnyoneCanPay_signsAll, fHashSingle_signsAll, fHashNone_signsAll, Bool.or_false,
    Bool.false_eq_true, if_false, vin, and_false, append_assoc]
  rfl

/-- The pieces of two inputs, written with one script code. -/
theorem input_of_serializeInput {txTo txTo' : CTransaction} {i : Nat} {txin txin' : CTxIn}
    (here : txTo.vin[i]? = some txin) (here' : txTo'.vin[i]? = some txin')
    (same : (signsAll scriptCode nIn txTo).serializeInput i =
      (signsAll scriptCode nIn txTo').serializeInput i) :
    txin.prevout = txin'.prevout ∧ txin.nSequence = txin'.nSequence := by
  rw [serializeInput_signsAll here, serializeInput_signsAll here'] at same
  obtain ⟨prevout, behind⟩ := splits_outPoint _ _ trivial trivial _ _ same
  have sequences := append_cancel_left behind
  exact ⟨prevout, UInt32.toNat_inj.mp (littleEndian_injective 4 txin.nSequence.toNat_lt
    txin'.nSequence.toNat_lt sequences)⟩

theorem length_serializeInput {txTo txTo' : CTransaction} {i : Nat} (below : i < txTo.vin.length)
    (below' : i < txTo'.vin.length) :
    ((signsAll scriptCode nIn txTo).serializeInput i).length =
      ((signsAll scriptCode nIn txTo').serializeInput i).length := by
  rw [serializeInput_signsAll (List.getElem?_eq_getElem below),
    serializeInput_signsAll (List.getElem?_eq_getElem below')]
  simp only [length_append, length_littleEndian, COutPoint.serialize]
  rfl

/-- All that a signature of all is about, in front of what follows. -/
theorem serialize_signsAll (txTo : CTransaction) (rest : List UInt8) :
    (signsAll scriptCode nIn txTo).serialize ++ rest =
      signedBytes 4 txTo.nVersion ++ (compactSize txTo.vin.length ++
        ((List.range txTo.vin.length).flatMap (signsAll scriptCode nIn txTo).serializeInput ++
          (sizedElements CTxOut.serialize txTo.vout ++
            (littleEndian 4 txTo.nLockTime.toNat ++ rest)))) := by
  have notSingle : SIGHASH_ALL &&& 0x1f = SIGHASH_SINGLE → nIn < txTo.vout.length :=
    fun single => absurd single (by decide)
  have outputs := @serializeOutputs_eq scriptCode txTo nIn SIGHASH_ALL notSingle
  have all : signedOutputs nIn SIGHASH_ALL txTo.vout = txTo.vout := by
    unfold signedOutputs
    rw [if_neg (by decide), if_neg (by decide)]
  have inputs : (signsAll scriptCode nIn txTo).nInputs = txTo.vin.length := by
    unfold CTransactionSignatureSerializer.nInputs
    rw [fAnyoneCanPay_signsAll]
    rfl
  rw [all] at outputs
  unfold CTransactionSignatureSerializer.serialize
  rw [inputs]
  rw [← outputs]
  simp only [append_assoc]
  rfl

/-- A signature of all commits to every field that it signs. -/
theorem sameSigned_of_serialize {tx tx' : SizedTransaction} {rest rest' : List UInt8}
    (same : (signsAll scriptCode nIn tx.toCTransaction).serialize ++ rest =
      (signsAll scriptCode nIn tx'.toCTransaction).serialize ++ rest') :
    SameSigned tx.toCTransaction tx'.toCTransaction := by
  rw [serialize_signsAll, serialize_signsAll] at same
  have range := tx.versionSized
  have range' := tx'.versionSized
  obtain ⟨version, behind⟩ := splits_signedBytes _ _ (by omega) (by omega) _ _ same
  obtain ⟨length, pieces⟩ := splits_compactSize _ _ tx.inputsSized tx'.inputsSized _ _ behind
  rw [← length] at pieces
  obtain ⟨inputs, behind⟩ := flatMap_range_inj (fun i below =>
    length_serializeInput below (length ▸ below)) pieces
  obtain ⟨vout, behind⟩ := splits_elements splits_txOut _ _ tx.outputsSized tx'.outputsSized _ _
    behind
  obtain ⟨lock, -⟩ := splits_littleEndian 4 _ _ tx.nLockTime.toNat_lt tx'.nLockTime.toNat_lt _ _
    behind
  refine ⟨version, inputs_eq_of length (fun i txin txin' here here' => ?_) fun _ => [], vout,
    UInt32.toNat_inj.mp lock⟩
  obtain ⟨below, -⟩ := List.getElem?_eq_some_iff.mp here
  exact input_of_serializeInput here here' (inputs i below)

/-- Equal fields and blobs leave only the scripts to tell two hashes apart. -/
theorem txid_of_sameSigned {tx tx' : CTransaction} (same : SameSigned tx tx')
    (blob : tx.blob = tx'.blob) {H : Type} (ss : CHashWriter H) (scriptSigs : Nat → CScript) :
    (tx.withScriptSigs scriptSigs).txid ss = (tx'.withScriptSigs scriptSigs).txid ss := by
  have inputs : (tx.withScriptSigs scriptSigs).vin = (tx'.withScriptSigs scriptSigs).vin := by
    have again : ∀ tx : CTransaction, (tx.withScriptSigs scriptSigs).vin =
        (tx.withScriptSigs fun _ => []).vin.mapIdx fun i txin =>
          { txin with scriptSig := scriptSigs i } := by
      intro tx
      simp only [CTransaction.withScriptSigs, mapIdx_mapIdx]
      rfl
    rw [again, again, same.inputs]
  unfold CTransaction.txid CTransaction.serialize
  rw [inputs]
  simp only [CTransaction.withScriptSigs, same.nVersion, same.vout, same.nLockTime, blob]

end Commits

/-- Two transactions with one signature hash of all differ only in the scripts of their inputs
exactly if their blobs are equal. -/
theorem sighash_all_commits_iff {H : Type} (ss : CHashWriter H)
    (injective : Function.Injective ss.getHash) (scriptCode : CScript) (tx tx' : SizedTransaction)
    (nIn : Nat) (inRange : nIn < tx.vin.length) (inRange' : nIn < tx'.vin.length)
    (same : signatureHash ss scriptCode tx.toCTransaction nIn SIGHASH_ALL =
      signatureHash ss scriptCode tx'.toCTransaction nIn SIGHASH_ALL) :
    SameButScriptSigs tx.toCTransaction tx'.toCTransaction ↔ tx.blob = tx'.blob := by
  refine ⟨fun all => all.blob, fun blob => ?_⟩
  have hashed : ∀ tx : CTransaction, nIn < tx.vin.length →
      signatureHash ss scriptCode tx nIn SIGHASH_ALL = ss.getHash
        ((signsAll scriptCode nIn tx).serialize ++ littleEndian 4 SIGHASH_ALL.toNat) := by
    intro tx inRange
    have notSingle : ¬ (SIGHASH_ALL &&& 0x1f = SIGHASH_SINGLE ∧ nIn ≥ tx.vout.length) :=
      fun both => absurd both.1 (by decide)
    unfold signatureHash
    rw [if_neg (by omega), if_neg notSingle]
    rfl
  rw [hashed _ inRange, hashed _ inRange'] at same
  have signed := sameSigned_of_serialize (injective same)
  exact ⟨signed, blob, txid_of_sameSigned signed blob⟩

def sizedSpend (blob scriptSig : List UInt8) : SizedTransaction where
  toCTransaction := sampleSpend blob scriptSig
  versionSized := by simp [sampleSpend]
  inputsSized := by simp [sampleSpend]
  outputsSized := by
    refine ⟨by simp [sampleSpend], fun out member => ?_⟩
    rw [mem_singleton.mp member]
    exact ⟨by decide, by decide⟩

def bytesWriter : CHashWriter (List UInt8) where
  getHash := id
  one := []

/-- Somebody else changes the blob of a transaction that is signed. -/
theorem blob_not_signed :
    ¬ ∀ {H : Type} (ss : CHashWriter H), Function.Injective ss.getHash →
      ∀ (scriptCode : CScript) (tx tx' : SizedTransaction) (nIn : Nat), nIn < tx.vin.length →
        nIn < tx'.vin.length →
        signatureHash ss scriptCode tx.toCTransaction nIn SIGHASH_ALL =
          signatureHash ss scriptCode tx'.toCTransaction nIn SIGHASH_ALL →
        SameButScriptSigs tx.toCTransaction tx'.toCTransaction := by
  intro claim
  have all := claim bytesWriter Function.injective_id sampleCode (sizedSpend [] [0x01])
    (sizedSpend [0x21] [0x01]) 0 (by decide) (by decide) (by decide +kernel)
  exact absurd all.blob (by decide)

/-- Another script leaves the rest as it is signed. -/
theorem scripts_not_signed :
    SameButScriptSigs (sampleSpend [0x21] [0x01]) (sampleSpend [0x21] [0x02]) :=
  (sighash_all_commits_iff bytesWriter Function.injective_id sampleCode (sizedSpend [0x21] [0x01])
    (sizedSpend [0x21] [0x02]) 0 (by decide) (by decide) (by decide +kernel)).mpr rfl

end Esbcoin
