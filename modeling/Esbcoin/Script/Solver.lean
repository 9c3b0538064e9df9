import Esbcoin.Script.SigOps

/-!
# Solver

`Solver` (`src/script/standard.cpp:40-159`) as it runs: the shortcuts, the two-pointer comparison
with each template, and what it leaves in its two out-parameters, also where it fails. The forms of
a script are stated on the operations the script reads as (`Form`), apart from the templates.
-/

namespace Esbcoin.Solver

open CScript (readOp getOp)

/-- `OP_SMALLINTEGER` (`script/script.h:166`). -/
def OP_SMALLINTEGER : UInt8 := 0xfa

/-- `OP_PUBKEYS` (`script/script.h:167`). -/
def OP_PUBKEYS : UInt8 := 0xfb

/-- `OP_PUBKEYHASH` (`script/script.h:169`). -/
def OP_PUBKEYHASH : UInt8 := 0xfd

/-- `OP_PUBKEY` (`script/script.h:170`). -/
def OP_PUBKEY : UInt8 := 0xfe

/-- `txnouttype` (`script/standard.h:55-64`). -/
inductive TxnOutType where
  | nonstandard
  | pubkey
  | pubkeyhash
  | scripthash
  | multisig
  | nullData
deriving DecidableEq, Repr

/-- `TX_PUBKEY` of `mTemplates` (`script/standard.cpp:47`). -/
def pubkeyTemplate : CScript := [OP_PUBKEY, CScript.OP_CHECKSIG]

/-- `TX_PUBKEYHASH` of `mTemplates` (`script/standard.cpp:50`). -/
def pubkeyhashTemplate : CScript :=
  [CScript.OP_DUP, CScript.OP_HASH160, OP_PUBKEYHASH, CScript.OP_EQUALVERIFY, CScript.OP_CHECKSIG]

/-- `TX_MULTISIG` of `mTemplates` (`script/standard.cpp:53`). -/
def multisigTemplate : CScript :=
  [OP_SMALLINTEGER, OP_PUBKEYS, OP_SMALLINTEGER, CScript.OP_CHECKMULTISIG]

/-- The size of a public key (`script/standard.cpp:117`, `:131`). -/
def IsKey (vch : List UInt8) : Prop := 33 ≤ vch.length ∧ vch.length ≤ 65

instance (vch : List UInt8) : Decidable (IsKey vch) :=
  inferInstanceAs (Decidable (33 ≤ vch.length ∧ vch.length ≤ 65))

/-- The keys of `OP_PUBKEYS` (`script/standard.cpp:115-122`): `vSolutions`, and the operation that
ended them. A `GetOp` that fails leaves `OP_INVALIDOPCODE`, nothing pushed and `pc1` behind what it
read. -/
def takeKeys : Nat → UInt8 → List UInt8 → CScript → List (List UInt8) →
    UInt8 × List UInt8 × CScript × List (List UInt8)
  | 0, opcode1, vch1, pc1, vSolutions => (opcode1, vch1, pc1, vSolutions)
  | fuel + 1, opcode1, vch1, pc1, vSolutions =>
    if IsKey vch1 then
      match readOp pc1 with
      | none => (CScript.OP_INVALIDOPCODE, [], (getOp pc1).2, vSolutions ++ [vch1])
      | some (opcode, vch, rest) => takeKeys fuel opcode vch rest (vSolutions ++ [vch1])
    else (opcode1, vch1, pc1, vSolutions)

/-- What an operation of the script adds to `vSolutions` at an operation of a template, `none` where
they differ (`script/standard.cpp:129-155`). -/
def fitOp (opcode2 : UInt8) (vch2 : List UInt8) (opcode1 : UInt8) (vch1 : List UInt8) :
    Option (List (List UInt8)) :=
  if opcode2 = OP_PUBKEY then if ¬ IsKey vch1 then none else some [vch1]
  else if opcode2 = OP_PUBKEYHASH then if vch1.length ≠ 20 then none else some [vch1]
  else if opcode2 = OP_SMALLINTEGER then
    (smallInteger opcode1).map fun n => [[UInt8.ofNat n]]
  else if opcode1 ≠ opcode2 ∨ vch1 ≠ vch2 then none
  else some []

/-- The comparison with a template (`script/standard.cpp:86-157`): `vSolutions` where the ends meet,
`none` where it breaks. Every turn reads an operation of the template. -/
def compareFrom : Nat → CScript → CScript → List (List UInt8) → Option (List (List UInt8))
  | 0, _, _, _ => none
  | fuel + 1, pc1, pc2, vSolutions =>
    if pc1 = [] ∧ pc2 = [] then some vSolutions
    else
      (readOp pc1).bind fun (opcode1, vch1, pc1) =>
      (readOp pc2).bind fun (opcode2, vch2, pc2) =>
        if opcode2 = OP_PUBKEYS then
          let (opcode1, vch1, pc1, vSolutions) :=
            takeKeys (pc1.length + 1) opcode1 vch1 pc1 vSolutions
          (readOp pc2).bind fun (opcode2, vch2, pc2) =>
          (fitOp opcode2 vch2 opcode1 vch1).bind fun pushed =>
            compareFrom fuel pc1 pc2 (vSolutions ++ pushed)
        else
          (fitOp opcode2 vch2 opcode1 vch1).bind fun pushed =>
            compareFrom fuel pc1 pc2 (vSolutions ++ pushed)

/-- One turn of the scan of the templates up to the match (`script/standard.cpp:78-90`). -/
def compare (template script : CScript) : Option (List (List UInt8)) :=
  compareFrom (template.length + 1) script template []

/-- The numbers of `TX_MULTISIG` do not go together (`script/standard.cpp:94-97`). -/
def miscounts (vSolutions : List (List UInt8)) : Bool :=
  let m := ((vSolutions.head?.getD []).head?.getD 0).toNat
  let n := ((vSolutions.getLast?.getD []).head?.getD 0).toNat
  m < 1 || n < 1 || m > n || vSolutions.length - 2 != n

/-- `Solver` (`script/standard.cpp:40-159`) on a `vSolutionsRet` that is not cleared at entry: what
it returns, `typeRet` and `vSolutionsRet`. -/
def solver (scriptPubKey : CScript) (vSolutionsRet : List (List UInt8)) :
    Bool × TxnOutType × List (List UInt8) :=
  if scriptPubKey.isPayToScriptHash then
    (true, .scripthash, vSolutionsRet ++ [(scriptPubKey.drop 2).take 20])
  else if scriptPubKey.head? = some CScript.OP_RETURN ∧
      CScript.isPushOnly (scriptPubKey.drop 1) then
    (true, .nullData, vSolutionsRet)
  else
    match compare pubkeyTemplate scriptPubKey with
    | some vSolutions => (true, .pubkey, vSolutions)
    | none =>
      match compare pubkeyhashTemplate scriptPubKey with
      | some vSolutions => (true, .pubkeyhash, vSolutions)
      | none =>
        match compare multisigTemplate scriptPubKey with
        | some vSolutions => (!miscounts vSolutions, .multisig, vSolutions)
        | none => (false, .nonstandard, [])

/-- `ExtractDestination` (`script/standard.cpp:203-231`). -/
def extractDestination (hash160 : List UInt8 → List UInt8) (scriptPubKey : CScript) :
    Option CTxDestination :=
  match solver scriptPubKey [] with
  | (true, .pubkey, vSolutions) =>
    let pubKey := vSolutions.head?.getD []
    if isValidPubKey pubKey then some (.keyID (hash160 pubKey)) else none
  | (true, .pubkeyhash, vSolutions) => some (.keyID (vSolutions.head?.getD []))
  | (true, .scripthash, vSolutions) => some (.scriptID (vSolutions.head?.getD []))
  | _ => none

/-! ## What a script reads as -/

/-- `GetOp` reads these operations from a script and comes to `rest`. -/
inductive Reads : CScript → List (UInt8 × List UInt8) → CScript → Prop
  | nil (pc : CScript) : Reads pc [] pc
  | cons {pc next rest : CScript} {opcode : UInt8} {vch : List UInt8}
      {ops : List (UInt8 × List UInt8)} :
      readOp pc = some (opcode, vch, next) → Reads next ops rest →
      Reads pc ((opcode, vch) :: ops) rest

/-- The forms of a standard output, each with its type and its solutions. Null data has no place for
a key, a hash or a number, and so no solution. -/
inductive Form (script : CScript) : TxnOutType → List (List UInt8) → Prop
  | pubkey {opcode : UInt8} {key : List UInt8} :
      Reads script [(opcode, key), (CScript.OP_CHECKSIG, [])] [] → IsKey key →
      Form script .pubkey [key]
  | pubkeyhash {opcode : UInt8} {hash : List UInt8} :
      Reads script [(CScript.OP_DUP, []), (CScript.OP_HASH160, []), (opcode, hash),
        (CScript.OP_EQUALVERIFY, []), (CScript.OP_CHECKSIG, [])] [] → hash.length = 20 →
      Form script .pubkeyhash [hash]
  | scripthash {hash : List UInt8} :
      script = CScript.OP_HASH160 :: 0x14 :: (hash ++ [CScript.OP_EQUAL]) → hash.length = 20 →
      Form script .scripthash [hash]
  | multisig {opM opN : UInt8} {m n : Nat} {keys : List (UInt8 × List UInt8)} :
      Reads script ((opM, []) :: (keys ++ [(opN, []), (CScript.OP_CHECKMULTISIG, [])])) [] →
      smallInteger opM = some m → smallInteger opN = some n → (∀ key ∈ keys, IsKey key.2) →
      1 ≤ m → m ≤ n → keys.length = n →
      Form script .multisig ([UInt8.ofNat m] :: (keys.map Prod.snd ++ [[UInt8.ofNat n]]))
  | nullData {pushes : List (UInt8 × List UInt8)} :
      Reads script ((CScript.OP_RETURN, []) :: pushes) [] →
      (∀ push ∈ pushes, push.1 ≤ CScript.OP_16) →
      Form script .nullData []

/-- The operations of a script are those of several keys between two numbers, and the numbers do not
go together: not `1 ≤ m ≤ n` with `n` keys. -/
def MultisigMiscounted (script : CScript) : Prop :=
  ∃ (opM opN : UInt8) (m n : Nat) (keys : List (UInt8 × List UInt8)),
    Reads script ((opM, []) :: (keys ++ [(opN, []), (CScript.OP_CHECKMULTISIG, [])])) [] ∧
    smallInteger opM = some m ∧ smallInteger opN = some n ∧ (∀ key ∈ keys, IsKey key.2) ∧
    ¬ (1 ≤ m ∧ m ≤ n ∧ keys.length = n)

/-- What `Solver` promises: it returns true for a script of a form, with the type and the solutions
of the form, and otherwise false, with the non-standard type and no solutions. -/
def Answers (script : CScript) (answer : Bool × TxnOutType × List (List UInt8)) : Prop :=
  (∃ type solutions, Form script type solutions ∧ answer = (true, type, solutions)) ∨
    ((¬ ∃ type solutions, Form script type solutions) ∧ answer = (false, .nonstandard, []))

/-! ## Reading -/

@[simp] theorem readOp_nil : readOp [] = none := rfl

variable {ops : List (UInt8 × List UInt8)} {rest pc script : CScript} {op : UInt8 × List UInt8}
  {opcode opcode2 opcode1 opN : UInt8} {vch vch1 hash : List UInt8} {fuel n m : Nat}
  {pushed solutions : List (List UInt8)} {type : TxnOutType}

theorem Reads.nil_inv (reads : Reads [] ops rest) : ops = [] := by
  cases reads with
  | nil => rfl
  | cons read _ => simp at read

theorem reads_nil_iff : Reads pc [] rest ↔ pc = rest := by
  constructor
  · intro reads
    cases reads
    rfl
  · rintro rfl
    exact .nil _

theorem reads_cons_iff :
    Reads pc (op :: ops) rest ↔ ∃ next, readOp pc = some (op.1, op.2, next) ∧ Reads next ops rest := by
  constructor
  · intro reads
    cases reads with
    | cons read later => exact ⟨_, read, later⟩
  · rintro ⟨next, read, later⟩
    exact .cons read later

theorem reads_append_iff {ops' : List (UInt8 × List UInt8)} :
    Reads pc (ops ++ ops') rest ↔ ∃ next, Reads pc ops next ∧ Reads next ops' rest := by
  induction ops generalizing pc with
  | nil => simp [reads_nil_iff]
  | cons op ops ih =>
    simp only [List.cons_append, reads_cons_iff, ih]
    constructor
    · rintro ⟨next, read, mid, first, second⟩
      exact ⟨mid, ⟨next, read, first⟩, second⟩
    · rintro ⟨mid, ⟨next, read, first⟩, second⟩
      exact ⟨next, read, mid, first, second⟩

/-- A script reads to its end in one way. -/
theorem Reads.unique {ops' : List (UInt8 × List UInt8)} (reads : Reads pc ops [])
    (reads' : Reads pc ops' []) : ops = ops' := by
  induction ops generalizing pc ops' with
  | nil =>
    obtain rfl := reads_nil_iff.mp reads
    exact reads'.nil_inv.symm
  | cons op ops ih =>
    obtain ⟨next, read, later⟩ := reads_cons_iff.mp reads
    cases reads' with
    | nil => simp at read
    | cons read' later' =>
      rw [read] at read'
      cases read'
      rw [ih later later']

theorem readOp_plain (plain : ¬ opcode ≤ CScript.OP_PUSHDATA4) (pc : CScript) :
    readOp (opcode :: pc) = some (opcode, [], pc) := if_neg plain

/-- An operation above `OP_PUSHDATA4` is its opcode alone. -/
theorem readOp_plain_iff (plain : ¬ opcode ≤ CScript.OP_PUSHDATA4) {next : CScript} :
    readOp pc = some (opcode, vch, next) ↔ vch = [] ∧ pc = opcode :: next := by
  constructor
  · intro read
    obtain ⟨operand, rfl, short⟩ := CScript.readOp_split read
    obtain rfl := short (UInt8.not_le.mp plain)
    rw [List.singleton_append, readOp_plain plain] at read
    cases read
    exact ⟨rfl, rfl⟩
  · rintro ⟨rfl, rfl⟩
    exact readOp_plain plain next

theorem readOp_shorter (read : readOp pc = some (opcode, vch, rest)) : rest.length < pc.length := by
  obtain ⟨operand, rfl, -⟩ := CScript.readOp_split read
  simp only [List.cons_append, List.length_cons, List.length_append]
  omega

theorem isPushOnlyFrom_iff (enough : pc.length ≤ fuel) :
    CScript.isPushOnlyFrom fuel pc = true ↔
      ∃ pushes, Reads pc pushes [] ∧ ∀ push ∈ pushes, push.1 ≤ CScript.OP_16 := by
  induction fuel generalizing pc with
  | zero =>
    obtain rfl : pc = [] := List.length_eq_zero_iff.mp (Nat.le_zero.mp enough)
    exact iff_of_true rfl ⟨[], .nil [], by simp⟩
  | succ fuel ih =>
    unfold CScript.isPushOnlyFrom
    cases pc with
    | nil => exact iff_of_true rfl ⟨[], .nil [], by simp⟩
    | cons first pc =>
      rw [if_neg (by simp)]
      cases read : readOp (first :: pc) with
      | none =>
        refine iff_of_false (by simp) ?_
        rintro ⟨pushes, reads, -⟩
        cases reads with
        | cons read' _ => simp [read] at read'
      | some op =>
        obtain ⟨opcode, vch, rest⟩ := op
        have shorter : rest.length < (first :: pc).length := readOp_shorter read
        have shorter' : rest.length ≤ fuel := by
          omega
        have later := ih shorter'
        simp only
        split
        · rename_i high
          refine iff_of_false (by simp) ?_
          rintro ⟨pushes, reads, low⟩
          cases reads with
          | cons read' _ =>
            rw [read] at read'
            cases read'
            exact absurd (low _ List.mem_cons_self) (UInt8.not_le.mpr high)
        rename_i low
        rw [later]
        constructor
        · rintro ⟨pushes, reads, lows⟩
          refine ⟨(opcode, vch) :: pushes, .cons read reads, ?_⟩
          exact List.forall_mem_cons.mpr ⟨UInt8.not_lt.mp low, lows⟩
        rintro ⟨pushes, reads, lows⟩
        cases reads with
        | cons read' reads =>
          rw [read] at read'
          cases read'
          exact ⟨_, reads, (List.forall_mem_cons.mp lows).2⟩

/-! ## The comparison with a template -/

theorem smallInteger_le (small : smallInteger opcode = some n) : n ≤ 16 := by
  unfold smallInteger at small
  split at small
  · cases small
    omega
  split at small
  · rename_i range
    cases small
    have high : opcode.toNat ≤ 96 := UInt8.le_iff_toNat_le.mp range.2
    omega
  · cases small

/-- A small integer pushes no bytes. -/
theorem readOp_small {next : CScript} (read : readOp pc = some (opcode, vch, next))
    (small : smallInteger opcode = some n) : vch = [] := by
  by_cases zero : opcode = 0
  · subst zero
    obtain ⟨operand, rfl, -⟩ := CScript.readOp_split read
    have pushed : [] = vch := congrArg (fun op => op.2.1) (Option.some.inj read)
    exact pushed.symm
  have plain : ¬ opcode ≤ CScript.OP_PUSHDATA4 := by
    unfold smallInteger at small
    rw [if_neg zero] at small
    split at small
    · rename_i range
      have low : 81 ≤ opcode.toNat := UInt8.le_iff_toNat_le.mp range.1
      rw [UInt8.le_iff_toNat_le, show CScript.OP_PUSHDATA4.toNat = 78 from rfl]
      omega
    · cases small
  exact ((readOp_plain_iff plain).mp read).1

/-- What operations add to `vSolutions` along a template that takes one at each place. -/
def fitOps : List UInt8 → List (UInt8 × List UInt8) → Option (List (List UInt8))
  | [], [] => some []
  | opcode2 :: template, (opcode1, vch1) :: ops =>
    (fitOp opcode2 [] opcode1 vch1).bind fun pushed => (fitOps template ops).map (pushed ++ ·)
  | _, _ => none

theorem fitOps_nil_iff : fitOps [] ops = some pushed ↔ ops = [] ∧ pushed = [] := by
  cases ops with
  | nil => simp [fitOps, eq_comm]
  | cons op ops => simp [fitOps]

theorem fitOps_cons_iff {template : List UInt8} :
    fitOps (opcode2 :: template) ops = some pushed ↔
      ∃ opcode1 vch1 more here later, ops = (opcode1, vch1) :: more ∧
        fitOp opcode2 [] opcode1 vch1 = some here ∧ fitOps template more = some later ∧
        pushed = here ++ later := by
  cases ops with
  | nil => simp [fitOps]
  | cons op ops =>
    simp only [fitOps, Option.bind_eq_some_iff, Option.map_eq_some_iff]
    constructor
    · rintro ⟨here, fit, later, fits, rfl⟩
      exact ⟨_, _, ops, here, later, rfl, fit, fits, rfl⟩
    · rintro ⟨opcode1, vch1, more, here, later, same, fit, fits, rfl⟩
      cases same
      exact ⟨here, fit, later, fits, rfl⟩

theorem fitOp_pubkey_iff :
    fitOp OP_PUBKEY [] opcode1 vch1 = some pushed ↔ IsKey vch1 ∧ pushed = [vch1] := by
  by_cases isKey : IsKey vch1 <;> simp [fitOp, isKey, eq_comm]

theorem fitOp_pubkeyhash_iff :
    fitOp OP_PUBKEYHASH [] opcode1 vch1 = some pushed ↔ vch1.length = 20 ∧ pushed = [vch1] := by
  have other : OP_PUBKEYHASH ≠ OP_PUBKEY := by decide
  by_cases size : vch1.length = 20 <;> simp [fitOp, other, size, eq_comm]

theorem fitOp_smallinteger_iff :
    fitOp OP_SMALLINTEGER [] opcode1 vch1 = some pushed ↔
      ∃ n, smallInteger opcode1 = some n ∧ pushed = [[UInt8.ofNat n]] := by
  have other : OP_SMALLINTEGER ≠ OP_PUBKEY := by decide
  have other' : OP_SMALLINTEGER ≠ OP_PUBKEYHASH := by decide
  simp only [fitOp, if_neg other, if_neg other', if_true, Option.map_eq_some_iff,
    eq_comm (a := pushed)]

/-- The other opcodes of a template stand for themselves. -/
theorem fitOp_exact_iff (low : opcode2 < OP_SMALLINTEGER) :
    fitOp opcode2 [] opcode1 vch1 = some pushed ↔ opcode1 = opcode2 ∧ vch1 = [] ∧ pushed = [] := by
  have other : opcode2 ≠ OP_PUBKEY := by
    rintro rfl
    exact absurd low (by decide)
  have other' : opcode2 ≠ OP_PUBKEYHASH := by
    rintro rfl
    exact absurd low (by decide)
  have other'' : opcode2 ≠ OP_SMALLINTEGER := by
    rintro rfl
    exact absurd low (by decide)
  unfold fitOp
  rw [if_neg other, if_neg other', if_neg other'']
  by_cases same : opcode1 = opcode2 ∧ vch1 = []
  · simp [same, eq_comm]
  · rw [if_pos (by simpa [or_iff_not_imp_left] using same)]
    simpa [and_assoc] using fun same' empty => absurd ⟨same', empty⟩ same

theorem compareFrom_end (fuel : Nat) (pc1 : CScript) (vSolutions : List (List UInt8)) :
    compareFrom (fuel + 1) pc1 [] vSolutions = if pc1 = [] then some vSolutions else none := by
  unfold compareFrom
  split
  · rename_i ends
    rw [if_pos ends.1]
  rename_i more
  have rest : pc1 ≠ [] := fun done => more ⟨done, rfl⟩
  rw [if_neg rest]
  cases readOp pc1 <;> rfl

/-- A turn at a place for one operation. -/
theorem compareFrom_place (plain : ¬ opcode2 ≤ CScript.OP_PUSHDATA4) (single : opcode2 ≠ OP_PUBKEYS)
    (fuel : Nat) (pc1 pc2 : CScript) (vSolutions : List (List UInt8)) :
    compareFrom (fuel + 1) pc1 (opcode2 :: pc2) vSolutions =
      (readOp pc1).bind fun (opcode1, vch1, next) =>
        (fitOp opcode2 [] opcode1 vch1).bind fun pushed =>
          compareFrom fuel next pc2 (vSolutions ++ pushed) := by
  conv_lhs => unfold compareFrom
  rw [if_neg (by simp)]
  simp only [readOp_plain plain, Option.bind_some, if_neg single]

theorem places_of_all {template : CScript}
    (all : template.all (fun opcode2 =>
      decide (¬ opcode2 ≤ CScript.OP_PUSHDATA4 ∧ opcode2 ≠ OP_PUBKEYS)) = true) :
    ∀ opcode2 ∈ template, ¬ opcode2 ≤ CScript.OP_PUSHDATA4 ∧ opcode2 ≠ OP_PUBKEYS :=
  fun opcode2 member => of_decide_eq_true (List.all_eq_true.mp all opcode2 member)

/-- Where every place of a template is for one operation, the script is compared operation by
operation. -/
theorem compareFrom_some_iff {template : CScript}
    (places : ∀ opcode2 ∈ template, ¬ opcode2 ≤ CScript.OP_PUSHDATA4 ∧ opcode2 ≠ OP_PUBKEYS)
    (enough : template.length < fuel) {vSolutions : List (List UInt8)} :
    compareFrom fuel pc template vSolutions = some solutions ↔
      ∃ ops pushed, Reads pc ops [] ∧ fitOps template ops = some pushed ∧
        solutions = vSolutions ++ pushed := by
  induction template generalizing fuel pc vSolutions with
  | nil =>
    obtain ⟨fuel, rfl⟩ := Nat.exists_eq_succ_of_ne_zero (Nat.ne_zero_of_lt enough)
    rw [compareFrom_end]
    constructor
    · intro ends
      split at ends
      · rename_i done
        cases ends
        exact ⟨[], [], reads_nil_iff.mpr done, rfl, (List.append_nil _).symm⟩
      · cases ends
    rintro ⟨ops, pushed, reads, fits, rfl⟩
    cases ops with
    | cons op ops => cases fits
    | nil =>
      cases fits
      rw [if_pos (reads_nil_iff.mp reads), List.append_nil]
  | cons opcode2 template ih =>
    obtain ⟨fuel, rfl⟩ := Nat.exists_eq_succ_of_ne_zero (Nat.ne_zero_of_lt enough)
    obtain ⟨⟨plain, single⟩, places⟩ := List.forall_mem_cons.mp places
    have shorter : template.length < fuel := Nat.lt_of_succ_lt_succ enough
    rw [compareFrom_place plain single]
    constructor
    · intro matched
      obtain ⟨⟨opcode1, vch1, next⟩, read, matched⟩ := Option.bind_eq_some_iff.mp matched
      obtain ⟨here, fits, matched⟩ := Option.bind_eq_some_iff.mp matched
      obtain ⟨ops, pushed, reads, later, rfl⟩ := (ih places shorter).mp matched
      refine ⟨(opcode1, vch1) :: ops, here ++ pushed, .cons read reads, ?_, ?_⟩
      · simp only [fitOps, fits, later, Option.bind_some, Option.map_some]
      · rw [List.append_assoc]
    rintro ⟨ops, pushed, reads, fits, rfl⟩
    cases reads with
    | nil => cases fits
    | cons read reads =>
      obtain ⟨here, fit, fits⟩ := Option.bind_eq_some_iff.mp fits
      obtain ⟨pushed, later, rfl⟩ := Option.map_eq_some_iff.mp fits
      simp only [read, Option.bind_some, fit]
      exact (ih places shorter).mpr ⟨_, pushed, reads, later, (List.append_assoc ..).symm⟩

/-- What matches `TX_PUBKEY`. -/
theorem compare_pubkey_iff :
    compare pubkeyTemplate script = some solutions ↔
      ∃ opcode key, Reads script [(opcode, key), (CScript.OP_CHECKSIG, [])] [] ∧ IsKey key ∧
        solutions = [key] := by
  unfold compare pubkeyTemplate
  rw [compareFrom_some_iff (places_of_all (by decide)) (Nat.lt_succ_self _)]
  simp only [fitOps_cons_iff, fitOps_nil_iff, fitOp_pubkey_iff,
    fitOp_exact_iff (show CScript.OP_CHECKSIG < OP_SMALLINTEGER by decide)]
  constructor
  · rintro ⟨ops, pushed, reads, ⟨opcode, key, more, here, later, rfl, ⟨isKey, rfl⟩, rest, rfl⟩, rfl⟩
    obtain ⟨_, _, _, _, _, rfl, ⟨rfl, rfl, rfl⟩, ⟨rfl, rfl⟩, rfl⟩ := rest
    exact ⟨opcode, key, reads, isKey, rfl⟩
  · rintro ⟨opcode, key, reads, isKey, rfl⟩
    exact ⟨_, _, reads, ⟨opcode, key, _, _, _, rfl, ⟨isKey, rfl⟩,
      ⟨_, _, _, _, _, rfl, ⟨rfl, rfl, rfl⟩, ⟨rfl, rfl⟩, rfl⟩, rfl⟩, rfl⟩

/-- What matches `TX_PUBKEYHASH`. -/
theorem compare_pubkeyhash_iff :
    compare pubkeyhashTemplate script = some solutions ↔
      ∃ opcode hash, Reads script [(CScript.OP_DUP, []), (CScript.OP_HASH160, []), (opcode, hash),
        (CScript.OP_EQUALVERIFY, []), (CScript.OP_CHECKSIG, [])] [] ∧ hash.length = 20 ∧
        solutions = [hash] := by
  unfold compare pubkeyhashTemplate
  rw [compareFrom_some_iff (places_of_all (by decide)) (Nat.lt_succ_self _)]
  simp only [fitOps_cons_iff, fitOps_nil_iff, fitOp_pubkeyhash_iff,
    fitOp_exact_iff (show CScript.OP_DUP < OP_SMALLINTEGER by decide),
    fitOp_exact_iff (show CScript.OP_HASH160 < OP_SMALLINTEGER by decide),
    fitOp_exact_iff (show CScript.OP_EQUALVERIFY < OP_SMALLINTEGER by decide),
    fitOp_exact_iff (show CScript.OP_CHECKSIG < OP_SMALLINTEGER by decide)]
  constructor
  · rintro ⟨ops, pushed, reads, ⟨_, _, _, _, _, rfl, ⟨rfl, rfl, rfl⟩, rest, rfl⟩, rfl⟩
    obtain ⟨_, _, _, _, _, rfl, ⟨rfl, rfl, rfl⟩, rest, rfl⟩ := rest
    obtain ⟨opcode, hash, _, _, _, rfl, ⟨size, rfl⟩, rest, rfl⟩ := rest
    obtain ⟨_, _, _, _, _, rfl, ⟨rfl, rfl, rfl⟩, rest, rfl⟩ := rest
    obtain ⟨_, _, _, _, _, rfl, ⟨rfl, rfl, rfl⟩, ⟨rfl, rfl⟩, rfl⟩ := rest
    exact ⟨opcode, hash, reads, size, rfl⟩
  · rintro ⟨opcode, hash, reads, size, rfl⟩
    exact ⟨_, _, reads, ⟨_, _, _, _, _, rfl, ⟨rfl, rfl, rfl⟩, ⟨_, _, _, _, _, rfl, ⟨rfl, rfl, rfl⟩,
      ⟨opcode, hash, _, _, _, rfl, ⟨size, rfl⟩, ⟨_, _, _, _, _, rfl, ⟨rfl, rfl, rfl⟩,
      ⟨_, _, _, _, _, rfl, ⟨rfl, rfl, rfl⟩, ⟨rfl, rfl⟩, rfl⟩, rfl⟩, rfl⟩, rfl⟩, rfl⟩, rfl⟩

theorem Reads.readable (reads : Reads pc (ops ++ [op]) rest) :
    ∃ opcode vch next, readOp pc = some (opcode, vch, next) := by
  cases ops with
  | nil =>
    obtain ⟨next, read, -⟩ := reads_cons_iff.mp reads
    exact ⟨_, _, next, read⟩
  | cons first ops =>
    obtain ⟨next, read, -⟩ := reads_cons_iff.mp reads
    exact ⟨_, _, next, read⟩

/-- The keys of `OP_PUBKEYS` are taken up to the first operation that is no key. -/
theorem takeKeys_of_reads {keys : List (UInt8 × List UInt8)} {pc1 : CScript}
    (areKeys : ∀ key ∈ keys, IsKey key.2) (read : readOp pc = some (opcode1, vch1, pc1))
    (reads : Reads pc (keys ++ [(opN, [])]) rest) (enough : pc1.length < fuel)
    (vSolutions : List (List UInt8)) :
    takeKeys fuel opcode1 vch1 pc1 vSolutions =
      (opN, [], rest, vSolutions ++ keys.map Prod.snd) := by
  induction keys generalizing fuel pc pc1 opcode1 vch1 vSolutions with
  | nil =>
    obtain ⟨next, read', done⟩ := reads_cons_iff.mp reads
    rw [read] at read'
    cases read'
    obtain rfl := reads_nil_iff.mp done
    obtain ⟨fuel, rfl⟩ := Nat.exists_eq_succ_of_ne_zero (Nat.ne_zero_of_lt enough)
    have noKey : ¬ IsKey [] := by decide
    simp [takeKeys, noKey]
  | cons key keys ih =>
    obtain ⟨isKey, areKeys⟩ := List.forall_mem_cons.mp areKeys
    obtain ⟨next, read', reads⟩ := reads_cons_iff.mp reads
    rw [read] at read'
    cases read'
    obtain ⟨fuel, rfl⟩ := Nat.exists_eq_succ_of_ne_zero (Nat.ne_zero_of_lt enough)
    -- behind a key there is another operation, as the number has not come yet
    obtain ⟨opcode, vch, later, read'⟩ := reads.readable
    have shorter := readOp_shorter read'
    rw [takeKeys, if_pos isKey]
    simp only [read']
    rw [ih areKeys read' reads (by omega), List.map_cons, List.append_assoc, List.singleton_append]

/-- Where the operation behind the keys is a small integer, the keys and it have been read. -/
theorem reads_of_takeKeys {vchN : List UInt8} {pc1 : CScript}
    (read : readOp pc = some (opcode1, vch1, pc1)) {vSolutions : List (List UInt8)}
    (enough : pc1.length < fuel)
    (taken : takeKeys fuel opcode1 vch1 pc1 vSolutions = (opN, vchN, rest, solutions))
    (small : smallInteger opN = some n) :
    ∃ keys, (∀ key ∈ keys, IsKey key.2) ∧ Reads pc (keys ++ [(opN, [])]) rest ∧
      solutions = vSolutions ++ keys.map Prod.snd := by
  induction fuel generalizing pc pc1 opcode1 vch1 vSolutions with
  | zero => exact absurd enough (Nat.not_lt_zero _)
  | succ fuel ih =>
    rw [takeKeys] at taken
    split at taken
    · rename_i isKey
      cases read' : readOp pc1 with
      | none =>
        rw [read'] at taken
        cases taken
        cases small
      | some op =>
        have shorter := readOp_shorter read'
        rw [read'] at taken
        obtain ⟨keys, areKeys, reads, rfl⟩ := ih read' (by omega) taken
        refine ⟨(opcode1, vch1) :: keys, List.forall_mem_cons.mpr ⟨isKey, areKeys⟩,
          .cons read reads, ?_⟩
        rw [List.map_cons, List.append_assoc, List.singleton_append]
    · cases taken
      obtain rfl := readOp_small read small
      exact ⟨[], by simp, .cons read (.nil _), (List.append_nil _).symm⟩

/-- The turn at `OP_PUBKEYS`, with the number behind it. -/
theorem compareFrom_pubkeys (fuel : Nat) (pc1 pc2 : CScript) (vSolutions : List (List UInt8)) :
    compareFrom (fuel + 1) pc1 (OP_PUBKEYS :: OP_SMALLINTEGER :: pc2) vSolutions =
      (readOp pc1).bind fun (opcode1, vch1, next) =>
        let (opN, vchN, rest, solutions) := takeKeys (next.length + 1) opcode1 vch1 next vSolutions
        (fitOp OP_SMALLINTEGER [] opN vchN).bind fun pushed =>
          compareFrom fuel rest pc2 (solutions ++ pushed) := by
  have keys : ∀ pc, readOp (OP_PUBKEYS :: pc) = some (OP_PUBKEYS, [], pc) := fun _ => rfl
  have number : ∀ pc, readOp (OP_SMALLINTEGER :: pc) = some (OP_SMALLINTEGER, [], pc) :=
    fun _ => rfl
  conv_lhs => unfold compareFrom
  rw [if_neg (by simp)]
  simp only [keys, number, Option.bind_some, if_true]

/-- What matches `TX_MULTISIG`, whatever its numbers are. -/
theorem compare_multisig_iff :
    compare multisigTemplate script = some solutions ↔
      ∃ opM opN m n keys,
        Reads script ((opM, []) :: (keys ++ [(opN, []), (CScript.OP_CHECKMULTISIG, [])])) [] ∧
        smallInteger opM = some m ∧ smallInteger opN = some n ∧ (∀ key ∈ keys, IsKey key.2) ∧
        solutions = [UInt8.ofNat m] :: (keys.map Prod.snd ++ [[UInt8.ofNat n]]) := by
  have last : ∀ {pc : CScript} {vSolutions : List (List UInt8)},
      compareFrom 3 pc [CScript.OP_CHECKMULTISIG] vSolutions = some solutions ↔
        Reads pc [(CScript.OP_CHECKMULTISIG, [])] [] ∧ solutions = vSolutions := by
    intro pc vSolutions
    rw [compareFrom_some_iff (places_of_all (by decide)) (by decide)]
    simp only [fitOps_cons_iff, fitOps_nil_iff,
      fitOp_exact_iff (show CScript.OP_CHECKMULTISIG < OP_SMALLINTEGER by decide)]
    constructor
    · rintro ⟨_, _, reads, ⟨_, _, _, _, _, rfl, ⟨rfl, rfl, rfl⟩, ⟨rfl, rfl⟩, rfl⟩, rfl⟩
      exact ⟨reads, by simp⟩
    · rintro ⟨reads, rfl⟩
      exact ⟨_, _, reads, ⟨_, _, _, _, _, rfl, ⟨rfl, rfl, rfl⟩, ⟨rfl, rfl⟩, rfl⟩, by simp⟩
  show compareFrom 5 script (OP_SMALLINTEGER :: OP_PUBKEYS :: OP_SMALLINTEGER ::
    [CScript.OP_CHECKMULTISIG]) [] = some solutions ↔ _
  rw [compareFrom_place (by decide) (by decide)]
  simp only [compareFrom_pubkeys, Option.bind_eq_some_iff, fitOp_smallinteger_iff, last]
  constructor
  · rintro ⟨⟨opM, vchM, pc1⟩, readM, _, ⟨m, smallM, rfl⟩, ⟨opcode1, vch1, pc2⟩, read1, matched⟩
    obtain rfl := readOp_small readM smallM
    rcases taken : takeKeys (pc2.length + 1) opcode1 vch1 pc2 ([] ++ [[UInt8.ofNat m]]) with
      ⟨opN, vchN, rest, taken'⟩
    simp only [taken] at matched
    obtain ⟨_, ⟨n, smallN, rfl⟩, reads, rfl⟩ := matched
    obtain ⟨keys, areKeys, readsKeys, rfl⟩ :=
      reads_of_takeKeys read1 (Nat.lt_succ_self _) taken smallN
    refine ⟨opM, opN, m, n, keys, .cons readM ?_, smallM, smallN, areKeys, by simp⟩
    rw [show keys ++ [(opN, []), (CScript.OP_CHECKMULTISIG, [])] =
      (keys ++ [(opN, [])]) ++ [(CScript.OP_CHECKMULTISIG, [])] by simp]
    exact reads_append_iff.mpr ⟨_, readsKeys, reads⟩
  · rintro ⟨opM, opN, m, n, keys, reads, smallM, smallN, areKeys, rfl⟩
    obtain ⟨pc1, readM, reads⟩ := reads_cons_iff.mp reads
    rw [show keys ++ [(opN, []), (CScript.OP_CHECKMULTISIG, [])] =
      (keys ++ [(opN, [])]) ++ [(CScript.OP_CHECKMULTISIG, [])] by simp] at reads
    obtain ⟨rest, readsKeys, reads⟩ := reads_append_iff.mp reads
    obtain ⟨opcode1, vch1, pc2, read1⟩ := readsKeys.readable
    have taken := takeKeys_of_reads areKeys read1 readsKeys (Nat.lt_succ_self _)
      ([] ++ [[UInt8.ofNat m]])
    refine ⟨(opM, [], pc1), readM, _, ⟨m, smallM, rfl⟩, (opcode1, vch1, pc2), read1, ?_⟩
    simp only [taken]
    exact ⟨_, ⟨n, smallN, rfl⟩, reads, by simp⟩

/-! ## The answer -/

/-- `Solver` returns before the templates, and so without clearing `vSolutionsRet`
(`script/standard.cpp:58-74`). -/
def Appends (script : CScript) : Prop :=
  script.isPayToScriptHash = true ∨
    script.head? = some CScript.OP_RETURN ∧ CScript.isPushOnly (script.drop 1) = true

instance (script : CScript) : Decidable (Appends script) :=
  inferInstanceAs (Decidable (_ ∨ _ ∧ _))

theorem isPayToScriptHash_iff :
    script.isPayToScriptHash = true ↔ ∃ hash : List UInt8,
      script = CScript.OP_HASH160 :: 0x14 :: (hash ++ [CScript.OP_EQUAL]) ∧ hash.length = 20 := by
  simp only [CScript.isPayToScriptHash, Bool.and_eq_true, beq_iff_eq]
  constructor
  · rintro ⟨⟨⟨size, first⟩, second⟩, last⟩
    match script, size, first, second, last with
    | [_], size, _, _, _ => simp at size
    | op :: push :: rest, size, first, second, last =>
      obtain rfl : op = CScript.OP_HASH160 := by simpa using first
      obtain rfl : push = 0x14 := by simpa using second
      have sized : rest.length = 21 := by simpa using size
      have ends : rest[20]? = some CScript.OP_EQUAL := by simpa using last
      refine ⟨rest.take 20, ?_, by simp [sized]⟩
      have behind : rest.drop 20 = [CScript.OP_EQUAL] := by
        obtain ⟨inside, value⟩ := List.getElem?_eq_some_iff.mp ends
        rw [List.drop_eq_getElem_cons inside, value, List.drop_eq_nil_of_le (by omega)]
      rw [← behind, List.take_append_drop]
  · rintro ⟨hash, rfl, size⟩
    simp [size]

theorem reads_scripthash (size : hash.length = 20) :
    Reads (CScript.OP_HASH160 :: 0x14 :: (hash ++ [CScript.OP_EQUAL]))
      [(CScript.OP_HASH160, []), (0x14, hash), (CScript.OP_EQUAL, [])] [] :=
  .cons (readOp_plain (by decide) _)
    (.cons (readOp_push20 size _) (.cons (readOp_plain (by decide) _) (.nil _)))

theorem nullData_iff :
    (script.head? = some CScript.OP_RETURN ∧ CScript.isPushOnly (script.drop 1) = true) ↔
      ∃ pushes, Reads script ((CScript.OP_RETURN, []) :: pushes) [] ∧
        ∀ push ∈ pushes, push.1 ≤ CScript.OP_16 := by
  constructor
  · rintro ⟨first, pushOnly⟩
    cases script with
    | nil => cases first
    | cons op rest =>
      cases first
      obtain ⟨pushes, reads, low⟩ := (isPushOnlyFrom_iff (Nat.le_refl _)).mp pushOnly
      exact ⟨pushes, .cons (readOp_plain (by decide) _) reads, low⟩
  · rintro ⟨pushes, reads, low⟩
    obtain ⟨next, read, later⟩ := reads_cons_iff.mp reads
    obtain ⟨-, rfl⟩ := (readOp_plain_iff (by decide)).mp read
    exact ⟨rfl, (isPushOnlyFrom_iff (Nat.le_refl _)).mpr ⟨pushes, later, low⟩⟩

/-- `Solver` returns before the templates exactly for these two forms. -/
theorem appends_iff :
    Appends script ↔
      (∃ solutions, Form script .scripthash solutions) ∨ Form script .nullData [] := by
  unfold Appends
  rw [isPayToScriptHash_iff, nullData_iff]
  constructor
  · rintro (⟨hash, same, size⟩ | ⟨pushes, reads, low⟩)
    · exact .inl ⟨[hash], .scripthash same size⟩
    · exact .inr (.nullData reads low)
  rintro (⟨solutions, form⟩ | form)
  · cases form with
    | scripthash same size => exact .inl ⟨_, same, size⟩
  · cases form with
    | nullData reads low => exact .inr ⟨_, reads, low⟩

/-- The numbers of several keys go together. -/
theorem miscounts_eq_false_iff (smallM : m ≤ 16) (smallN : n ≤ 16) (keys : List (List UInt8)) :
    miscounts ([UInt8.ofNat m] :: (keys ++ [[UInt8.ofNat n]])) = false ↔
      1 ≤ m ∧ m ≤ n ∧ keys.length = n := by
  have valueM : (UInt8.ofNat m).toNat = m := by
    rw [UInt8.toNat_ofNat', Nat.mod_eq_of_lt (by omega)]
  have valueN : (UInt8.ofNat n).toNat = n := by
    rw [UInt8.toNat_ofNat', Nat.mod_eq_of_lt (by omega)]
  have back : ([UInt8.ofNat m] :: (keys ++ [[UInt8.ofNat n]])).getLast? = some [UInt8.ofNat n] := by
    rw [List.getLast?_cons, List.getLast?_concat]
    rfl
  simp only [miscounts, back, List.head?_cons, Option.getD_some, valueM, valueN, List.length_cons,
    List.length_append, List.length_nil, Bool.or_eq_false_iff, decide_eq_false_iff_not,
    bne_eq_false_iff_eq]
  omega

/-- What `vSolutionsRet` keeps of its contents at entry. -/
def kept (type : TxnOutType) (vSolutionsRet : List (List UInt8)) : List (List UInt8) :=
  match type with
  | .scripthash | .nullData => vSolutionsRet
  | _ => []

/-- Behind the shortcuts only the templates decide. -/
theorem solver_templates (scans : ¬ Appends script) (vSolutionsRet : List (List UInt8)) :
    solver script vSolutionsRet = match compare pubkeyTemplate script with
      | some vSolutions => (true, .pubkey, vSolutions)
      | none =>
        match compare pubkeyhashTemplate script with
        | some vSolutions => (true, .pubkeyhash, vSolutions)
        | none =>
          match compare multisigTemplate script with
          | some vSolutions => (!miscounts vSolutions, .multisig, vSolutions)
          | none => (false, .nonstandard, []) := by
  obtain ⟨noScriptHash, noData⟩ := not_or.mp scans
  unfold solver
  rw [if_neg noScriptHash, if_neg noData]

/-- The first operation of a script that is not taken by a shortcut. -/
theorem not_appends_of_reads (reads : Reads script (op :: ops) [])
    (noHash : op.1 = CScript.OP_HASH160 → ops.length ≠ 2) (noReturn : op.1 ≠ CScript.OP_RETURN) :
    ¬ Appends script := by
  intro appends
  rcases appends with scriptHash | noData
  · obtain ⟨hash, rfl, size⟩ := isPayToScriptHash_iff.mp scriptHash
    have same := reads.unique (reads_scripthash size)
    obtain ⟨rfl, rfl⟩ := same
    exact noHash rfl rfl
  obtain ⟨pushes, reads', -⟩ := nullData_iff.mp noData
  have same := reads.unique reads'
  simp only [List.cons.injEq] at same
  exact noReturn (by rw [same.1])

theorem not_appends_of_number {opM : UInt8} (reads : Reads script ((opM, []) :: ops) [])
    (smallM : smallInteger opM = some m) : ¬ Appends script := by
  refine not_appends_of_reads reads ?_ ?_
  · rintro rfl
    cases smallM
  · rintro rfl
    cases smallM

/-- Exactly these two types come from the shortcuts. -/
theorem Form.appends_iff (form : Form script type solutions) :
    Appends script ↔ type = .scripthash ∨ type = .nullData := by
  cases form with
  | @pubkey opcode key reads isKey =>
    refine iff_of_false (not_appends_of_reads reads (fun _ => by simp) ?_) (by simp)
    intro isReturn
    obtain ⟨next, read, -⟩ := reads_cons_iff.mp reads
    rw [show opcode = CScript.OP_RETURN from isReturn] at read
    obtain ⟨empty, -⟩ :=
      (readOp_plain_iff (show ¬ CScript.OP_RETURN ≤ CScript.OP_PUSHDATA4 by decide)).mp read
    rw [show key = [] from empty] at isKey
    exact absurd isKey (by decide)
  | pubkeyhash reads size =>
    exact iff_of_false (not_appends_of_reads reads (fun _ => by simp)
      (show CScript.OP_DUP ≠ CScript.OP_RETURN by decide)) (by simp)
  | scripthash same size =>
    exact iff_of_true (Solver.appends_iff.mpr (.inl ⟨_, .scripthash same size⟩)) (.inl rfl)
  | multisig reads smallM smallN areKeys low high count =>
    exact iff_of_false (not_appends_of_number reads smallM) (by simp)
  | nullData reads low =>
    exact iff_of_true (Solver.appends_iff.mpr (.inr (.nullData reads low))) (.inr rfl)

/-- The script of several keys passes the first two templates. -/
theorem solver_of_multisig {opM : UInt8} {keys : List (UInt8 × List UInt8)}
    (reads : Reads script ((opM, []) :: (keys ++ [(opN, []), (CScript.OP_CHECKMULTISIG, [])])) [])
    (smallM : smallInteger opM = some m) (smallN : smallInteger opN = some n)
    (areKeys : ∀ key ∈ keys, IsKey key.2) (vSolutionsRet : List (List UInt8)) :
    solver script vSolutionsRet =
      (decide (1 ≤ m ∧ m ≤ n ∧ keys.length = n), .multisig,
        [UInt8.ofNat m] :: (keys.map Prod.snd ++ [[UInt8.ofNat n]])) := by
  have scans := not_appends_of_number reads smallM
  have noKey : compare pubkeyTemplate script = none := by
    rw [Option.eq_none_iff_forall_ne_some]
    intro solutions matched
    obtain ⟨opcode, key, reads', isKey, -⟩ := compare_pubkey_iff.mp matched
    have same := reads.unique reads'
    simp only [List.cons.injEq, Prod.mk.injEq] at same
    obtain ⟨⟨-, rfl⟩, -⟩ := same
    exact absurd isKey (by decide)
  have noHash : compare pubkeyhashTemplate script = none := by
    rw [Option.eq_none_iff_forall_ne_some]
    intro solutions matched
    obtain ⟨opcode, hash, reads', -, -⟩ := compare_pubkeyhash_iff.mp matched
    have same := reads.unique reads'
    simp only [List.cons.injEq, Prod.mk.injEq] at same
    obtain ⟨⟨rfl, -⟩, -⟩ := same
    cases smallM
  have matched := compare_multisig_iff.mpr ⟨opM, opN, m, n, keys, reads, smallM, smallN, areKeys, rfl⟩
  have counts := miscounts_eq_false_iff (smallInteger_le smallM) (smallInteger_le smallN)
    (keys.map Prod.snd)
  rw [List.length_map] at counts
  rw [solver_templates scans, noKey, noHash, matched]
  simp only [Prod.mk.injEq, and_true]
  rw [Bool.eq_iff_iff, Bool.not_eq_true', decide_eq_true_iff]
  exact counts

/-- `Solver` returns true for a script of a form, with its type and, behind what is kept, its
solutions. -/
theorem solver_of_form (form : Form script type solutions) (vSolutionsRet : List (List UInt8)) :
    solver script vSolutionsRet = (true, type, kept type vSolutionsRet ++ solutions) := by
  have shortcut := form.appends_iff
  cases form with
  | @pubkey opcode key reads isKey =>
    have scans : ¬ Appends script := by simp [shortcut]
    rw [solver_templates scans, compare_pubkey_iff.mpr ⟨opcode, key, reads, isKey, rfl⟩]
    rfl
  | @pubkeyhash opcode hash reads size =>
    have scans : ¬ Appends script := by simp [shortcut]
    have noKey : compare pubkeyTemplate script = none := by
      rw [Option.eq_none_iff_forall_ne_some]
      intro solutions matched
      obtain ⟨opcode, key, reads', -, -⟩ := compare_pubkey_iff.mp matched
      exact absurd (congrArg List.length (reads.unique reads')) (by simp)
    rw [solver_templates scans, noKey, compare_pubkeyhash_iff.mpr ⟨opcode, hash, reads, size, rfl⟩]
    rfl
  | @scripthash hash same size =>
    have scriptHash := isPayToScriptHash_iff.mpr ⟨hash, same, size⟩
    unfold solver
    rw [if_pos scriptHash]
    subst same
    simp [kept, ← size]
  | multisig reads smallM smallN areKeys low high count =>
    rw [solver_of_multisig reads smallM smallN areKeys,
      decide_eq_true (show _ ∧ _ ∧ _ from ⟨low, high, count⟩)]
    rfl
  | nullData reads low =>
    have noData := nullData_iff.mpr ⟨_, reads, low⟩
    have noScriptHash : ¬ script.isPayToScriptHash = true := by
      intro scriptHash
      obtain ⟨hash, rfl, -⟩ := isPayToScriptHash_iff.mp scriptHash
      cases noData.1
    unfold solver
    rw [if_neg noScriptHash, if_pos noData]
    simp [kept]

/-- A script of no form is answered as non-standard, unless its numbers of keys do not go
together. -/
theorem solver_of_no_form (noForm : ¬ ∃ type solutions, Form script type solutions)
    (counted : ¬ MultisigMiscounted script) (vSolutionsRet : List (List UInt8)) :
    solver script vSolutionsRet = (false, .nonstandard, []) := by
  have scans : ¬ Appends script := by
    rw [appends_iff]
    rintro (⟨solutions, form⟩ | form)
    · exact noForm ⟨_, solutions, form⟩
    · exact noForm ⟨_, _, form⟩
  have noKey : compare pubkeyTemplate script = none := by
    rw [Option.eq_none_iff_forall_ne_some]
    intro solutions matched
    obtain ⟨opcode, key, reads, isKey, -⟩ := compare_pubkey_iff.mp matched
    exact noForm ⟨_, _, .pubkey reads isKey⟩
  have noHash : compare pubkeyhashTemplate script = none := by
    rw [Option.eq_none_iff_forall_ne_some]
    intro solutions matched
    obtain ⟨opcode, hash, reads, size, -⟩ := compare_pubkeyhash_iff.mp matched
    exact noForm ⟨_, _, .pubkeyhash reads size⟩
  have noKeys : compare multisigTemplate script = none := by
    rw [Option.eq_none_iff_forall_ne_some]
    intro solutions matched
    obtain ⟨opM, opN, m, n, keys, reads, smallM, smallN, areKeys, -⟩ :=
      compare_multisig_iff.mp matched
    by_cases counts : 1 ≤ m ∧ m ≤ n ∧ keys.length = n
    · exact noForm ⟨_, _, .multisig reads smallM smallN areKeys counts.1 counts.2.1 counts.2.2⟩
    · exact counted ⟨opM, opN, m, n, keys, reads, smallM, smallN, areKeys, counts⟩
  rw [solver_templates scans, noKey, noHash, noKeys]

theorem Form.solutions_unique {solutions' : List (List UInt8)} (form : Form script type solutions)
    (form' : Form script type solutions') : solutions = solutions' := by
  have same := (solver_of_form form []).symm.trans (solver_of_form form' [])
  simpa using same

theorem kept_eq_nil_iff (form : Form script type solutions) (vSolutionsRet : List (List UInt8)) :
    kept type vSolutionsRet = [] ↔ vSolutionsRet = [] ∨ ¬ Appends script := by
  rw [form.appends_iff]
  cases type <;> simp [kept]

/-- `Solver` fails on these scripts behind the match, and leaves the type and the solutions of the
match. -/
theorem solver_of_miscounted (miscounted : MultisigMiscounted script)
    (vSolutionsRet : List (List UInt8)) :
    ∃ solutions, solutions ≠ [] ∧ solver script vSolutionsRet = (false, .multisig, solutions) := by
  obtain ⟨opM, opN, m, n, keys, reads, smallM, smallN, areKeys, wrong⟩ := miscounted
  refine ⟨[UInt8.ofNat m] :: (keys.map Prod.snd ++ [[UInt8.ofNat n]]), by simp, ?_⟩
  rw [solver_of_multisig reads smallM smallN areKeys, decide_eq_false wrong]

/-- When `Solver` keeps its promise. -/
theorem answers_iff (script : CScript) (vSolutionsRet : List (List UInt8)) :
    Answers script (solver script vSolutionsRet) ↔
      ¬ MultisigMiscounted script ∧ (vSolutionsRet = [] ∨ ¬ Appends script) := by
  by_cases miscounted : MultisigMiscounted script
  · obtain ⟨left, -, answer⟩ := solver_of_miscounted miscounted vSolutionsRet
    refine iff_of_false ?_ (fun holds => holds.1 miscounted)
    rw [answer]
    rintro (⟨type, solutions, -, same⟩ | ⟨-, same⟩)
    · cases same
    · cases same
  by_cases standard : ∃ type solutions, Form script type solutions
  · obtain ⟨type, solutions, form⟩ := standard
    rw [← kept_eq_nil_iff form, solver_of_form form vSolutionsRet]
    constructor
    · rintro (⟨type', solutions', form', answer⟩ | ⟨-, answer⟩)
      · obtain ⟨rfl, same⟩ : type = type' ∧ kept type vSolutionsRet ++ solutions = solutions' := by
          simpa using answer
        rw [form'.solutions_unique form] at same
        exact ⟨miscounted, List.append_left_eq_self.mp same⟩
      · cases answer
    · rintro ⟨-, fresh⟩
      exact .inl ⟨type, solutions, form, by rw [fresh, List.nil_append]⟩
  · rw [solver_of_no_form standard miscounted]
    refine iff_of_true (.inr ⟨standard, rfl⟩) ⟨miscounted, .inr ?_⟩
    intro appends
    rcases appends_iff.mp appends with ⟨solutions, form⟩ | form
    · exact standard ⟨_, solutions, form⟩
    · exact standard ⟨_, _, form⟩

/-- Where `Solver` returns true, the script has the form. -/
theorem form_of_solver {vSolutionsRet vSolutions : List (List UInt8)}
    (solved : solver script vSolutionsRet = (true, type, vSolutions)) :
    ∃ solutions, Form script type solutions ∧ vSolutions = kept type vSolutionsRet ++ solutions := by
  by_cases miscounted : MultisigMiscounted script
  · obtain ⟨left, -, answer⟩ := solver_of_miscounted miscounted vSolutionsRet
    rw [answer] at solved
    cases solved
  by_cases standard : ∃ type solutions, Form script type solutions
  · obtain ⟨type', solutions, form⟩ := standard
    rw [solver_of_form form vSolutionsRet] at solved
    cases solved
    exact ⟨solutions, form, rfl⟩
  · rw [solver_of_no_form standard miscounted] at solved
    cases solved

/-! ## The two templates of one key -/

/-- The opcode that stands for a position. -/
def placeOpcode : TemplateOp → UInt8
  | .op opcode => opcode
  | .pubkey => OP_PUBKEY
  | .pubkeyHash => OP_PUBKEYHASH

/-- Is what fits a position kept in `vSolutions`? -/
def keeps : TemplateOp → Bool
  | .op _ => false
  | _ => true

/-- An opcode of a template that stands for itself. -/
def IsPlain (opcode2 : UInt8) : Prop := ¬ opcode2 ≤ CScript.OP_PUSHDATA4 ∧ opcode2 < OP_SMALLINTEGER

variable {position : TemplateOp}

theorem fitOp_place (place : ∀ opcode2, position = .op opcode2 → IsPlain opcode2) :
    fitOp (placeOpcode position) [] opcode1 vch1 =
      if position.fits opcode1 vch1 then some (if keeps position then [vch1] else []) else none := by
  cases position with
  | op opcode2 =>
    have plain := (place opcode2 rfl).2
    split
    · rename_i fits
      simp only [TemplateOp.fits, Bool.and_eq_true, beq_iff_eq, List.isEmpty_iff] at fits
      exact (fitOp_exact_iff plain).mpr ⟨fits.1, fits.2, rfl⟩
    rename_i differs
    refine Option.eq_none_iff_forall_ne_some.mpr fun pushed found => differs ?_
    obtain ⟨rfl, rfl, -⟩ := (fitOp_exact_iff plain).mp found
    simp [TemplateOp.fits]
  | pubkey =>
    simp only [placeOpcode, fitOp, TemplateOp.fits, keeps, if_true, Bool.and_eq_true,
      decide_eq_true_iff, ite_not]
    rfl
  | pubkeyHash =>
    have other : OP_PUBKEYHASH ≠ OP_PUBKEY := by decide
    simp only [placeOpcode, fitOp, TemplateOp.fits, keeps, if_true, beq_iff_eq, if_neg other, ne_eq,
      ite_not]

/-- Where every position is for one operation, the scan along the template is the comparison of
`Esbcoin.Destination`. -/
theorem compareFrom_eq_matchTemplate (template : List TemplateOp)
    (places : ∀ position ∈ template, ∀ opcode2, position = .op opcode2 → IsPlain opcode2)
    (enough : template.length < fuel) (pc : CScript) (vSolutions : List (List UInt8)) :
    compareFrom fuel pc (template.map placeOpcode) vSolutions =
      (matchTemplate template pc).map (vSolutions ++ ·) := by
  induction template generalizing fuel pc vSolutions with
  | nil =>
    obtain ⟨fuel, rfl⟩ := Nat.exists_eq_succ_of_ne_zero (Nat.ne_zero_of_lt enough)
    rw [List.map_nil, compareFrom_end, matchTemplate]
    cases pc with
    | nil => exact congrArg some (List.append_nil _).symm
    | cons opcode pc => rfl
  | cons position template ih =>
    obtain ⟨fuel, rfl⟩ := Nat.exists_eq_succ_of_ne_zero (Nat.ne_zero_of_lt enough)
    obtain ⟨place, places⟩ := List.forall_mem_cons.mp places
    have single : ¬ placeOpcode position ≤ CScript.OP_PUSHDATA4 ∧
        placeOpcode position ≠ OP_PUBKEYS := by
      cases position with
      | op opcode2 =>
        obtain ⟨plain, low⟩ := place opcode2 rfl
        refine ⟨plain, ?_⟩
        rintro rfl
        exact absurd low (by decide)
      | pubkey => decide
      | pubkeyHash => decide
    rw [List.map_cons, compareFrom_place single.1 single.2, matchTemplate]
    cases readOp pc with
    | none => rfl
    | some result =>
      simp only [Option.bind_some, fitOp_place place]
      split
      · rw [Option.bind_some, ih places (Nat.lt_of_succ_lt_succ enough), Option.map_map]
        cases position with
        | op opcode2 => simp [Function.comp_def, keeps]
        | pubkey => simp [Function.comp_def, keeps]
        | pubkeyHash => simp [Function.comp_def, keeps]
      · rfl

theorem compare_pubkey (script : CScript) :
    compare pubkeyTemplate script = matchTemplate templatePubkey script := by
  refine (compareFrom_eq_matchTemplate templatePubkey ?_ (Nat.lt_succ_self _) script
    []).trans Option.map_id'
  simp only [templatePubkey, List.forall_mem_cons, reduceCtorEq, false_implies, implies_true,
    TemplateOp.op.injEq, forall_eq', List.not_mem_nil, true_and, and_true, IsPlain]
  decide

theorem compare_pubkeyhash (script : CScript) :
    compare pubkeyhashTemplate script = matchTemplate templatePubkeyHash script := by
  refine (compareFrom_eq_matchTemplate templatePubkeyHash ?_ (Nat.lt_succ_self _)
    script []).trans Option.map_id'
  simp only [templatePubkeyHash, List.forall_mem_cons, reduceCtorEq, false_implies, implies_true,
    TemplateOp.op.injEq, forall_eq', List.not_mem_nil, true_and, and_true, IsPlain]
  decide

/-- `ExtractDestination` by patterns is the one with `Solver`. -/
theorem extractDestination_eq (hash160 : List UInt8 → List UInt8) (script : CScript) :
    Esbcoin.extractDestination hash160 script = extractDestination hash160 script := by
  unfold Esbcoin.extractDestination extractDestination
  by_cases scriptHash : script.isPayToScriptHash = true
  · unfold solver
    rw [if_pos scriptHash, if_pos scriptHash]
    rfl
  rw [if_neg scriptHash]
  by_cases noData : script.head? = some CScript.OP_RETURN ∧ CScript.isPushOnly (script.drop 1) = true
  · unfold solver
    rw [if_neg scriptHash, if_pos noData]
    cases script with
    | nil => rfl
    | cons opcode rest =>
      obtain rfl : opcode = CScript.OP_RETURN := Option.some.inj noData.1
      rfl
  rw [solver_templates (not_or.mpr ⟨scriptHash, noData⟩), ← compare_pubkey, ← compare_pubkeyhash]
  cases key : compare pubkeyTemplate script with
  | some vSolutions =>
    obtain ⟨opcode, pubKey, -, -, rfl⟩ := compare_pubkey_iff.mp key
    rfl
  | none =>
    cases keyHash : compare pubkeyhashTemplate script with
    | some vSolutions =>
      obtain ⟨opcode, hash, -, -, rfl⟩ := compare_pubkeyhash_iff.mp keyHash
      rfl
    | none =>
      cases compare multisigTemplate script with
      | none => rfl
      | some vSolutions =>
        dsimp only
        cases miscounts vSolutions <;> rfl

/-! ## Destinations -/

theorem form_keyID (size : hash.length = 20) :
    Form (getScriptForDestination (some (.keyID hash))) .pubkeyhash [hash] :=
  .pubkeyhash (.cons (readOp_plain (by decide) _)
    (.cons (readOp_plain (by decide) _) (.cons (readOp_push20 size _)
      (.cons (readOp_plain (by decide) _) (.cons (readOp_plain (by decide) _) (.nil _)))))) size

theorem form_scriptID (size : hash.length = 20) :
    Form (getScriptForDestination (some (.scriptID hash))) .scripthash [hash] :=
  .scripthash rfl size

/-- A hash of twenty bytes, or none. -/
def IsId : CTxDestination → Prop
  | .keyID hash | .scriptID hash => hash.length = 20

/-- A key or script id is read back from its script. -/
theorem extractDestination_getScript (hash160 : List UInt8 → List UInt8)
    {destination : CTxDestination} (id : IsId destination) :
    extractDestination hash160 (getScriptForDestination (some destination)) = some destination := by
  cases destination with
  | keyID hash =>
    unfold extractDestination
    rw [solver_of_form (form_keyID id)]
    rfl
  | scriptID hash =>
    unfold extractDestination
    rw [solver_of_form (form_scriptID id)]
    rfl

/-- On a fresh or a cleared vector `Solver` answers with the form of a script exactly where its
numbers of keys go together, and the destinations are read back. -/
theorem solver_answers (hash160 : List UInt8 → List UInt8) :
    (∀ script vSolutionsRet, Answers script (solver script vSolutionsRet) ↔
      ¬ MultisigMiscounted script ∧ (vSolutionsRet = [] ∨ ¬ Appends script)) ∧
    ∀ destination, IsId destination →
      extractDestination hash160 (getScriptForDestination (some destination)) = some destination :=
  ⟨answers_iff, fun _ => extractDestination_getScript hash160⟩

/-- `OP_2 <key> OP_1 OP_CHECKMULTISIG`: two signatures of one key. -/
def miscountedScript : CScript :=
  [0x52, 0x21] ++ List.replicate 33 2 ++ [0x51, CScript.OP_CHECKMULTISIG]

/-- `Solver` returns false for a script of two signatures of one key with the type and the solutions
of the match. -/
theorem solver_miscountedScript :
    solver miscountedScript [] = (false, .multisig, [[2], List.replicate 33 2, [1]]) ∧
    ¬ Answers miscountedScript (solver miscountedScript []) := by
  have answer : solver miscountedScript [] =
      (false, .multisig, [[2], List.replicate 33 2, [1]]) := by decide +kernel
  refine ⟨answer, ?_⟩
  rintro (⟨type, solutions, -, same⟩ | ⟨-, same⟩)
  · cases same
  · cases same

theorem solver_answers_sample :
    extractDestination id (getScriptForDestination (some (.keyID (List.replicate 20 1)))) =
      some (.keyID (List.replicate 20 1)) :=
  (solver_answers id).2 _ (List.length_replicate)

end Esbcoin.Solver
