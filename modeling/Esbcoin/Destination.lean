import Esbcoin.Chain.Params
import Esbcoin.Script

/-!
# Destinations

`ExtractDestination` and `GetScriptForDestination` (`src/script/standard.cpp`). An address is
compared as the destination it decodes to: `CBitcoinAddress::ToString` is the base58 form of the
version byte and the twenty bytes. The hash of a public key is a parameter.
-/

namespace Esbcoin

namespace CScript

/-- `OP_EQUAL` (`script/script.h:103`). -/
def OP_EQUAL : UInt8 := 0x87

/-- `OP_CHECKMULTISIG` (`script/script.h:149`). -/
def OP_CHECKMULTISIG : UInt8 := 0xae

/-- `CScript::GetOp` with the operand (`script/script.h:476-527`), where it succeeds: the opcode,
what it pushes and the rest of the script. -/
def readOp : CScript → Option (UInt8 × List UInt8 × CScript)
  | [] => none
  | opcode :: pc =>
    if opcode ≤ OP_PUSHDATA4 then
      match pushSize opcode pc with
      | none => none
      | some (nSize, rest) =>
        if rest.length < nSize then none else some (opcode, rest.take nSize, rest.drop nSize)
    else some (opcode, [], pc)

/-- `CScript::IsPayToScriptHash` (`script/script.cpp:237-244`). -/
def isPayToScriptHash (script : CScript) : Bool :=
  script.length == 23 && script[0]? == some OP_HASH160 && script[1]? == some 0x14 &&
    script[22]? == some OP_EQUAL

end CScript

/-- `CTxDestination` (`script/standard.h`) other than `CNoDestination`. -/
inductive CTxDestination where
  | keyID (hash : List UInt8)
  | scriptID (hash : List UInt8)
deriving DecidableEq, Repr

/-- A position of a template of `Solver` (`script/standard.cpp:42-54`). -/
inductive TemplateOp where
  | op (opcode : UInt8)
  | pubkey
  | pubkeyHash

/-- `TX_PUBKEY` (`script/standard.cpp:47`). -/
def templatePubkey : List TemplateOp := [.pubkey, .op CScript.OP_CHECKSIG]

/-- `TX_PUBKEYHASH` (`script/standard.cpp:50`). -/
def templatePubkeyHash : List TemplateOp :=
  [.op CScript.OP_DUP, .op CScript.OP_HASH160, .pubkeyHash, .op CScript.OP_EQUALVERIFY,
    .op CScript.OP_CHECKSIG]

/-- Does an operation fit a position (`script/standard.cpp:110-151`)? -/
def TemplateOp.fits (opcode : UInt8) (vch : List UInt8) : TemplateOp → Bool
  | .op expected => opcode == expected && vch.isEmpty
  | .pubkey => decide (33 ≤ vch.length) && decide (vch.length ≤ 65)
  | .pubkeyHash => vch.length == 20

/-- `vSolutions` of a template that a script matches (`script/standard.cpp:76-154`). -/
def matchTemplate : List TemplateOp → CScript → Option (List (List UInt8))
  | [], script => if script.isEmpty then some [] else none
  | position :: template, script =>
    match script.readOp with
    | none => none
    | some (opcode, vch, rest) =>
      if position.fits opcode vch then
        (matchTemplate template rest).map (fun solutions =>
          match position with
          | .op _ => solutions
          | _ => vch :: solutions)
      else none

/-- `CPubKey::GetLen` (`pubkey.h:45-52`). -/
def pubKeyLen (chHeader : UInt8) : Nat :=
  if chHeader = 2 ∨ chHeader = 3 then 33
  else if chHeader = 4 ∨ chHeader = 6 ∨ chHeader = 7 then 65
  else 0

/-- `CPubKey::IsValid` of a key made from these bytes (`pubkey.h:69-76`, `:157-160`). -/
def isValidPubKey (vch : List UInt8) : Bool :=
  match vch with
  | [] => false
  | chHeader :: _ => pubKeyLen chHeader != 0 && pubKeyLen chHeader == vch.length

/-- `ExtractDestination` (`script/standard.cpp:203-231`), with `Solver`. Of the other templates
of `Solver`, several keys and data, no script has a destination. -/
def extractDestination (hash160 : List UInt8 → List UInt8) (scriptPubKey : CScript) :
    Option CTxDestination :=
  if scriptPubKey.isPayToScriptHash then some (.scriptID ((scriptPubKey.drop 2).take 20))
  else
    match matchTemplate templatePubkey scriptPubKey with
    | some (pubKey :: _) =>
      if isValidPubKey pubKey then some (.keyID (hash160 pubKey)) else none
    | _ =>
      match matchTemplate templatePubkeyHash scriptPubKey with
      | some (hash :: _) => some (.keyID hash)
      | _ => none

/-- `OP_SMALLINTEGER` of a template (`script/standard.cpp:139-147`): the number that is pushed. -/
def smallInteger (opcode : UInt8) : Option Nat :=
  if opcode = 0 then some 0
  else if 0x51 ≤ opcode ∧ opcode ≤ 0x60 then some (opcode.toNat - 0x50)
  else none

/-- `OP_PUBKEYS` of a template (`script/standard.cpp:115-126`), behind an operation that has been
read: the keys, and the operation that ends them, also one that cannot be read. -/
def readPubKeys (fuel : Nat) (opcode : UInt8) (vch : List UInt8) (script : CScript) :
    List (List UInt8) × UInt8 × CScript :=
  match fuel with
  | 0 => ([], opcode, script)
  | fuel + 1 =>
    if 33 ≤ vch.length ∧ vch.length ≤ 65 then
      match script.readOp with
      | none => ([vch], CScript.OP_INVALIDOPCODE, script)
      | some (opcode, vch', rest) =>
        let (keys, last, rest) := readPubKeys fuel opcode vch' rest
        (vch :: keys, last, rest)
    else ([], opcode, script)

/-- The keys of a script that matches `TX_MULTISIG` (`script/standard.cpp:53`, `:90-98`). -/
def multisigKeys (script : CScript) : Option (List (List UInt8)) := do
  let (opcode, _, rest) ← script.readOp
  let m ← smallInteger opcode
  let (opcode, vch, rest) ← CScript.readOp rest
  let (keys, opcode, rest) := readPubKeys script.length opcode vch rest
  let n ← smallInteger opcode
  if rest = [CScript.OP_CHECKMULTISIG] ∧ 1 ≤ m ∧ m ≤ n ∧ keys.length = n then some keys else none

/-- `ExtractDestinations` (`script/standard.cpp:233-268`), with `Solver`. -/
def extractDestinations (hash160 : List UInt8 → List UInt8) (scriptPubKey : CScript) :
    Option (List CTxDestination) :=
  match extractDestination hash160 scriptPubKey with
  | some destination => some [destination]
  | none =>
    match multisigKeys scriptPubKey with
    | none => none
    | some keys =>
      let addressRet := (keys.filter isValidPubKey).map fun key => CTxDestination.keyID (hash160 key)
      if addressRet.isEmpty then none else some addressRet

/-- `GetScriptForDestination` (`script/standard.cpp:271-307`). -/
def getScriptForDestination : Option CTxDestination → CScript
  | none => []
  | some (.keyID hash) =>
    [CScript.OP_DUP, CScript.OP_HASH160, 0x14] ++ hash ++
      [CScript.OP_EQUALVERIFY, CScript.OP_CHECKSIG]
  | some (.scriptID hash) => [CScript.OP_HASH160, 0x14] ++ hash ++ [CScript.OP_EQUAL]

/-! ## Reading a destination back -/

theorem readOp_push20 {hash : List UInt8} (size : hash.length = 20) (rest : CScript) :
    CScript.readOp (0x14 :: (hash ++ rest)) = some (0x14, hash, rest) := by
  have sized : CScript.pushSize 0x14 (hash ++ rest) = some (20, hash ++ rest) := rfl
  simp only [CScript.readOp, sized, List.length_append, size]
  rw [if_pos (by decide), if_neg (by omega), ← size, List.take_left, List.drop_left]

/-- A key hash is read back from its script. -/
theorem extractDestination_keyID (hash160 : List UInt8 → List UInt8) {hash : List UInt8}
    (size : hash.length = 20) :
    extractDestination hash160 (getScriptForDestination (some (.keyID hash))) =
      some (.keyID hash) := by
  have notScript : CScript.isPayToScriptHash
      (getScriptForDestination (some (.keyID hash))) = false := by
    simp [CScript.isPayToScriptHash, getScriptForDestination, size]
  have notKey : matchTemplate templatePubkey
      (getScriptForDestination (some (.keyID hash))) = none := rfl
  have isKeyHash : matchTemplate templatePubkeyHash
      (getScriptForDestination (some (.keyID hash))) = some [hash] := by
    have dup : ∀ rest, CScript.readOp (CScript.OP_DUP :: rest) =
        some (CScript.OP_DUP, [], rest) := fun _ => rfl
    have hash160 : ∀ rest, CScript.readOp (CScript.OP_HASH160 :: rest) =
        some (CScript.OP_HASH160, [], rest) := fun _ => rfl
    have tail : matchTemplate [.op CScript.OP_EQUALVERIFY, .op CScript.OP_CHECKSIG]
        [CScript.OP_EQUALVERIFY, CScript.OP_CHECKSIG] = some [] := rfl
    have push := readOp_push20 size [CScript.OP_EQUALVERIFY, CScript.OP_CHECKSIG]
    simp only [getScriptForDestination, templatePubkeyHash, List.cons_append, List.nil_append]
    rw [matchTemplate, dup]
    simp only [TemplateOp.fits, beq_self_eq_true, List.isEmpty_nil, Bool.and_self, if_true]
    rw [matchTemplate, hash160]
    simp only [TemplateOp.fits, beq_self_eq_true, List.isEmpty_nil, Bool.and_self, if_true]
    rw [matchTemplate, push]
    simp only [TemplateOp.fits, size, beq_self_eq_true, if_true, tail]
    rfl
  unfold extractDestination
  rw [notScript, notKey, isKeyHash]
  rfl

end Esbcoin
