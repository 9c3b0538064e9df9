import Esbcoin.GM
import Esbcoin.Mining.TemplateShape
import Esbcoin.Script.Solver

/-!
# The signature of a block

`CBlock::SignBlock` and `CBlock::CheckBlockSignature` (`src/primitives/block.cpp:141-261`), and the
blocks that the miner signs (`src/miner.cpp:401-417`, `:550-563`). The signer finds its key by the
hash of a public key, the verifier needs the public key itself.
-/

namespace Esbcoin

open Solver (solver TxnOutType)
open Solver

/-- `uint160` of bytes, which throws `uint_error` unless they are twenty (`uint256.cpp:19-25`). -/
def toUint160 (vch : List UInt8) : Option (List UInt8) := if vch.length = 20 then some vch else none

/-- The keys of a key store, and what is computed with them. A key of the store is valid: it has a
valid public key and signs, and its public key verifies what it has signed. -/
structure BlockKeys (Key : Type) where
  hash160 : List UInt8 → List UInt8
  /-- `CKeyStore::GetKey`. -/
  getKey : List UInt8 → Option Key
  getPubKey : Key → CPubKey
  getPubKey_valid : ∀ keyID key, getKey keyID = some key → (getPubKey key).bytes ≠ []
  /-- `CKey::Sign`. -/
  sign : Key → UInt256 → Option (List UInt8)
  signs : ∀ keyID key hash, getKey keyID = some key → ∃ vchSig, sign key hash = some vchSig
  /-- `CPubKey::Verify`. -/
  verify : CPubKey → UInt256 → List UInt8 → Bool
  verifies : ∀ key hash vchSig, sign key hash = some vchSig →
    vchSig ≠ [] ∧ verify (getPubKey key) hash vchSig = true

/-- The output that the stake is paid to. -/
def CBlock.stakeOutput (block : CBlock) : Option CTxOut :=
  block.vtx[1]?.bind fun coinStake => coinStake.vout[1]?

section Model

variable {Key : Type} (keys : BlockKeys Key)

/-- The key is looked up and signs (`block.cpp:161-169`, `:184-193`, `:200-209`). -/
def signWith (block : CBlock) (keyID : List UInt8) : Bool × CBlock :=
  match keys.getKey keyID with
  | none => (false, block)
  | some key =>
    match keys.sign key block.getHash with
    | none => (false, block)
    | some vchBlockSig => (true, { block with vchBlockSig })

/-- The loop over the outputs of the coinbase (`block.cpp:148-171`), with `vSolutions`. -/
def signCoinBase (block : CBlock) : List (List UInt8) → List CTxOut → Option (Bool × CBlock)
  | _, [] => some (false, block)
  | vSolutions, txout :: vout =>
    match solver txout.scriptPubKey vSolutions with
    | (true, .pubkey, pubKey :: _) => (toUint160 pubKey).map (signWith keys block)
    | (_, _, vSolutions) => signCoinBase block vSolutions vout

/-- `CBlock::SignBlock` (`block.cpp:141-216`): what it returns and the block; `none` where it
throws. -/
def signBlock (block : CBlock) : Option (Bool × CBlock) :=
  if !block.isProofOfStake then
    block.vtx.head?.bind fun coinBase => signCoinBase keys block [] coinBase.vout
  else
    block.stakeOutput.bind fun txout =>
      match solver txout.scriptPubKey [] with
      | (true, .pubkeyhash, hash :: _) => (toUint160 hash).map (signWith keys block)
      | (true, .pubkey, pubKey :: _) =>
        some (signWith keys block (keys.hash160 (CPubKey.set pubKey).bytes))
      | _ => some (false, block)

/-- What is done with the public key (`block.cpp:233-241`, `:249-257`). -/
def verifyWith (block : CBlock) (pubkey : CPubKey) : Bool :=
  !pubkey.bytes.isEmpty && !block.vchBlockSig.isEmpty &&
    keys.verify pubkey block.getHash block.vchBlockSig

/-- `CBlock::CheckBlockSignature` (`block.cpp:218-261`). -/
def checkBlockSignature (block : CBlock) : Bool :=
  if block.isProofOfWork then block.vchBlockSig.isEmpty
  else
    match block.stakeOutput.map fun txout => solver txout.scriptPubKey [] with
    | some (true, .pubkey, vchPubKey :: _) => verifyWith keys block (CPubKey.set vchPubKey)
    | some (true, .pubkeyhash, vchPubKey :: _) => verifyWith keys block (CPubKey.set vchPubKey)
    | _ => false

/-- The coinstake pays to the hash of a key that the key store has. -/
def paysToOwnKeyHash (block : CBlock) : Bool :=
  block.isProofOfStake && match block.stakeOutput.map fun txout => solver txout.scriptPubKey [] with
    | some (true, .pubkeyhash, hash :: _) => (keys.getKey hash).isSome
    | _ => false

end Model

/-! ## What the scripts hold -/

variable {script : CScript} {vSolutionsRet vSolutions : List (List UInt8)}

theorem solver_pubkey (solved : solver script vSolutionsRet = (true, .pubkey, vSolutions)) :
    ∃ pubKey, vSolutions = [pubKey] ∧ 33 ≤ pubKey.length := by
  obtain ⟨solutions, form, rfl⟩ := form_of_solver solved
  cases form with
  | pubkey reads isKey => exact ⟨_, rfl, isKey.1⟩

theorem solver_pubkeyhash (solved : solver script vSolutionsRet = (true, .pubkeyhash, vSolutions)) :
    ∃ hash, vSolutions = [hash] ∧ hash.length = 20 := by
  obtain ⟨solutions, form, rfl⟩ := form_of_solver solved
  cases form with
  | pubkeyhash reads size => exact ⟨_, rfl, size⟩

/-- Twenty bytes are no public key. -/
theorem set_of_hash {hash : List UInt8} (short : hash.length = 20) :
    (CPubKey.set hash).bytes = [] := by
  have invalid : isValidPubKey hash ≠ true := by
    unfold isValidPubKey
    split
    · simp
    rename_i chHeader tail
    rw [short]
    unfold pubKeyLen
    split
    · simp
    · split
      · simp
      · simp
  rw [CPubKey.set, dif_neg invalid]
  rfl

/-! ## What is signed and what is verified -/

section Signs

variable {Key : Type} {keys : BlockKeys Key} {block signed : CBlock}

/-- What is stored is the signature of a key of the store. -/
theorem signWith_true {keyID : List UInt8} (signs : signWith keys block keyID = (true, signed)) :
    ∃ key vchBlockSig, keys.getKey keyID = some key ∧
      keys.sign key block.getHash = some vchBlockSig ∧ signed = { block with vchBlockSig } := by
  unfold signWith at signs
  split at signs
  · cases signs
  rename_i key found
  split at signs
  · cases signs
  rename_i vchBlockSig signature
  exact ⟨key, vchBlockSig, found, signature, (Prod.mk.inj signs).2.symm⟩

theorem signWith_of_getKey {keyID : List UInt8} {key : Key}
    (found : keys.getKey keyID = some key) :
    ∃ signed, signWith keys block keyID = (true, signed) := by
  obtain ⟨vchBlockSig, signature⟩ := keys.signs keyID key block.getHash found
  exact ⟨_, by rw [signWith, found]; dsimp only; rw [signature]⟩

/-- The bytes of a public key are no `uint160`, so no block of proof of work is signed. -/
theorem signCoinBase_ne_true {vout : List CTxOut} :
    signCoinBase keys block vSolutions vout ≠ some (true, signed) := by
  induction vout generalizing vSolutions with
  | nil => simp [signCoinBase]
  | cons txout vout ih =>
    rw [signCoinBase]
    split
    · rename_i pubKey rest solved
      obtain ⟨vch, same, long⟩ := solver_pubkey solved
      obtain ⟨rfl, -⟩ := List.cons.inj same
      rw [toUint160, if_neg (by omega)]
      simp
    · exact ih

theorem signBlock_true (signs : signBlock keys block = some (true, signed)) :
    block.isProofOfStake = true ∧ ∃ txout keyID, block.stakeOutput = some txout ∧
      signWith keys block keyID = (true, signed) ∧
      (solver txout.scriptPubKey [] = (true, .pubkeyhash, [keyID]) ∨
        ∃ pubKey, solver txout.scriptPubKey [] = (true, .pubkey, [pubKey]) ∧
          keyID = keys.hash160 (CPubKey.set pubKey).bytes) := by
  unfold signBlock at signs
  split at signs
  · obtain ⟨coinBase, -, signs⟩ := Option.bind_eq_some_iff.mp signs
    exact absurd signs signCoinBase_ne_true
  rename_i stake
  obtain ⟨txout, output, signs⟩ := Option.bind_eq_some_iff.mp signs
  refine ⟨by simpa using stake, txout, ?_⟩
  split at signs
  · rename_i hash rest solved
    obtain ⟨vch, same, short⟩ := solver_pubkeyhash solved
    obtain ⟨rfl, rfl⟩ := List.cons.inj same
    rw [toUint160, if_pos short] at signs
    exact ⟨hash, output, Option.some.inj signs, Or.inl solved⟩
  · rename_i pubKey rest solved
    obtain ⟨vch, same, -⟩ := solver_pubkey solved
    obtain ⟨rfl, rfl⟩ := List.cons.inj same
    exact ⟨_, output, Option.some.inj signs, Or.inr ⟨pubKey, solved, rfl⟩⟩
  · cases Option.some.inj signs

theorem signBlock_of_paysToOwnKeyHash (pays : paysToOwnKeyHash keys block = true) :
    ∃ signed, signBlock keys block = some (true, signed) := by
  rw [paysToOwnKeyHash, Bool.and_eq_true] at pays
  obtain ⟨stake, pays⟩ := pays
  split at pays
  · rename_i hash rest solves
    obtain ⟨txout, output, solved⟩ := Option.map_eq_some_iff.mp solves
    obtain ⟨vch, same, short⟩ := solver_pubkeyhash solved
    obtain ⟨rfl, rfl⟩ := List.cons.inj same
    obtain ⟨key, found⟩ := Option.isSome_iff_exists.mp pays
    obtain ⟨signed, signs⟩ := @signWith_of_getKey Key keys block hash key found
    refine ⟨signed, ?_⟩
    simp [signBlock, stake, output, solved, toUint160, short, signs]
  · cases pays

/-- A block that pays to the hash of a key is not verified. -/
theorem checkBlockSignature_of_keyHash {txout : CTxOut} {hash : List UInt8}
    (stake : block.isProofOfStake = true) (output : block.stakeOutput = some txout)
    (solved : solver txout.scriptPubKey [] = (true, .pubkeyhash, [hash])) :
    checkBlockSignature keys block = false := by
  obtain ⟨vch, same, short⟩ := solver_pubkeyhash solved
  obtain ⟨rfl, -⟩ := List.cons.inj same
  simp [checkBlockSignature, CBlock.isProofOfWork, stake, output, solved, verifyWith,
    set_of_hash short]

/-- What `SignBlock` signs is verified by `CheckBlockSignature`, unless the coinstake pays to the
hash of a key that the key store has. No other key has the hash of the one it pays to. -/
theorem checkBlockSignature_iff (keys : BlockKeys Key) (block : CBlock)
    (unique : ∀ txout pubKey, block.stakeOutput = some txout →
      solver txout.scriptPubKey [] = (true, .pubkey, [pubKey]) →
      ∀ key, keys.getKey (keys.hash160 (CPubKey.set pubKey).bytes) = some key →
        keys.getPubKey key = CPubKey.set pubKey) :
    (∀ signed, signBlock keys block = some (true, signed) →
      checkBlockSignature keys signed = true) ↔ paysToOwnKeyHash keys block = false := by
  constructor
  · intro verifies
    apply Bool.eq_false_iff.mpr
    intro pays
    obtain ⟨signed, signs⟩ := signBlock_of_paysToOwnKeyHash pays
    have verified := verifies signed signs
    obtain ⟨stake, txout, keyID, output, stores, -⟩ := signBlock_true signs
    obtain ⟨key, vchBlockSig, -, -, rfl⟩ := signWith_true stores
    rw [paysToOwnKeyHash, output, Option.map_some, stake, Bool.true_and] at pays
    split at pays
    · rename_i hash rest solves
      have solved := Option.some.inj solves
      obtain ⟨_, same, -⟩ := solver_pubkeyhash solved
      obtain ⟨rfl, rfl⟩ := List.cons.inj same
      have refused := @checkBlockSignature_of_keyHash Key keys { block with vchBlockSig } txout hash
        stake output solved
      rw [refused] at verified
      cases verified
    · cases pays
  · intro other signed signs
    obtain ⟨stake, txout, keyID, output, stores, solves⟩ := signBlock_true signs
    obtain ⟨key, vchBlockSig, found, signature, rfl⟩ := signWith_true stores
    rcases solves with solved | ⟨pubKey, solved, rfl⟩
    · simp [paysToOwnKeyHash, stake, output, solved, found] at other
    have same := unique txout pubKey output solved key found
    have valid := keys.getPubKey_valid _ key found
    obtain ⟨filled, verified⟩ := keys.verifies key block.getHash vchBlockSig signature
    rw [same] at valid verified
    have output' : ({ block with vchBlockSig } : CBlock).stakeOutput = some txout := output
    have stake' : ({ block with vchBlockSig } : CBlock).isProofOfStake = true := stake
    have verified' : keys.verify (CPubKey.set pubKey)
        ({ block with vchBlockSig } : CBlock).getHash vchBlockSig = true := verified
    simp [checkBlockSignature, CBlock.isProofOfWork, stake', output', solved, verifyWith, valid,
      filled, verified']

/-! ## The blocks that are minted -/

/-- `IncrementExtraNonce` (`miner.cpp:401-417`): the coinbase with another input script. -/
def incrementExtraNonce (env : MinerEnv) (scriptSig : CScript) (vtx : List CTransaction) :
    List CTransaction :=
  vtx.modify 0 fun coinBase => env.finish { coinBase with
    vin := coinBase.vin.modify 0 fun txin => { txin with scriptSig } }

/-- The block of a template that the miner signs (`miner.cpp:550-563`). -/
def CBlockTemplate.minted (template : CBlockTemplate) (env : MinerEnv) (scriptSig : CScript)
    (nVersion : Int) (nNonce : UInt32) (hashMerkleRoot hash : UInt256) : CBlock where
  nVersion
  hashPrevBlock := template.hashPrevBlock
  hashMerkleRoot
  nTime := template.nTime
  nBits := template.nBits
  nNonce
  hash
  vtx := incrementExtraNonce env scriptSig template.vtx

theorem head?_pushData (b : List UInt8) : ∃ opcode, (CScript.pushData b).head? = some opcode ∧
    opcode ≤ CScript.OP_PUSHDATA4 := by
  unfold CScript.pushData
  split
  · rename_i short
    refine ⟨_, rfl, ?_⟩
    have bound : b.length < 76 := short
    rw [UInt8.le_iff_toNat_le, UInt8.toNat_ofNat', Nat.mod_eq_of_lt (by omega)]
    exact Nat.le_of_lt (bound.trans (by decide))
  split
  · exact ⟨_, rfl, by decide⟩
  · split
    · exact ⟨_, rfl, by decide⟩
    · exact ⟨_, rfl, by decide⟩

/-- A stake pays to a public key, never to the hash of one. -/
theorem stakeScript_not_pubkeyhash {env : MinerEnv} {scriptPubKeyOut : CScript}
    (pays : stakeScript env script = some scriptPubKeyOut) :
    solver scriptPubKeyOut vSolutionsRet ≠ (true, .pubkeyhash, vSolutions) := by
  intro solved
  obtain ⟨solutions, form, -⟩ := form_of_solver solved
  unfold stakeScript at pays
  split at pays
  · cases pays
  split at pays
  · -- the script of the kernel is one of a public key
    rename_i found matched
    obtain rfl := Option.some.inj pays
    obtain ⟨opcode, key, reads, isKey, -⟩ :=
      compare_pubkey_iff.mp ((compare_pubkey _).trans matched)
    have other := (solver_of_form (.pubkey reads isKey) vSolutionsRet).symm.trans solved
    cases other
  split at pays
  · -- the script that is made begins with a push
    obtain ⟨pubKey, -, rfl⟩ := Option.map_eq_some_iff.mp pays
    obtain ⟨opcode, first, push⟩ := head?_pushData pubKey
    cases form with
    | pubkeyhash reads size =>
      obtain ⟨next, read, -⟩ := reads_cons_iff.mp reads
      obtain ⟨-, same⟩ := (readOp_plain_iff (by decide)).mp read
      have head := congrArg List.head? same
      rw [List.head?_append, first] at head
      obtain rfl := Option.some.inj head
      exact absurd push (by decide)
  · cases pays

theorem stakeOutputs_second {env : RewardEnv} {stake : Stake} {nFees : Int} {vout : List CTxOut}
    (made : stakeOutputs env stake nFees = some vout) :
    ∃ nValue, vout[1]? = some ⟨nValue, stake.scriptPubKeyOut⟩ := by
  obtain ⟨value, -, made⟩ := Option.bind_eq_some_iff.mp made
  obtain ⟨⟨devFeeOut, blockReward⟩, -, rfl⟩ := Option.map_eq_some_iff.mp made
  simp only [fillBlockPayee_eq, List.cons_append, List.nil_append, payStake_eq]
  exact ⟨_, rfl⟩

/-- The first output of the coinstake of a minted block is no payment to the hash of a key. -/
theorem paysToOwnKeyHash_minted {env : MinerEnv} {valid : CBlockTemplate → Bool}
    {s s' : MinerState} {scriptPubKeyIn scriptSig : CScript} {template : CBlockTemplate}
    {nVersion : Int} {nNonce : UInt32} {hashMerkleRoot hash : UInt256}
    (made : createNewBlock env valid s scriptPubKeyIn true = some (some template, s')) :
    paysToOwnKeyHash keys (template.minted env scriptSig nVersion nNonce hashMerkleRoot hash) =
      false := by
  obtain ⟨c, generated, -, generates, vtx⟩ := createNewBlock_some made
  cases generates with
  | @stake kernel nSpendable tx found coinStake =>
    obtain ⟨-, out, -, -, script⟩ := stakeKernel_some found
    obtain ⟨-, -, worth, outputs⟩ := coinStakeOf_some coinStake
    obtain ⟨nValue, second⟩ := stakeOutputs_second outputs
    have output : (template.minted env scriptSig nVersion nNonce hashMerkleRoot hash).stakeOutput =
        some ⟨nValue, kernel.scriptPubKeyOut⟩ := by
      unfold CBlock.stakeOutput CBlockTemplate.minted incrementExtraNonce
      rw [vtx]
      exact second
    rw [paysToOwnKeyHash, output, Option.map_some]
    split
    · rename_i hash rest solved
      exact absurd (Option.some.inj solved) (stakeScript_not_pubkeyhash script)
    · exact Bool.and_false _

/-- What `SignBlock` signs of a block that is minted is verified by `CheckBlockSignature`, and it
signs no block of proof of work. No other key has the hash of the one the coinstake pays to. -/
theorem minted_block_verified (keys : BlockKeys Key) :
    (∀ {env : MinerEnv} {valid : CBlockTemplate → Bool} {s s' : MinerState}
      {scriptPubKeyIn : CScript} {template : CBlockTemplate},
      createNewBlock env valid s scriptPubKeyIn true = some (some template, s') →
      ∀ scriptSig nVersion nNonce hashMerkleRoot hash block,
        block = template.minted env scriptSig nVersion nNonce hashMerkleRoot hash →
        (∀ txout pubKey, block.stakeOutput = some txout →
          solver txout.scriptPubKey [] = (true, .pubkey, [pubKey]) →
          ∀ key, keys.getKey (keys.hash160 (CPubKey.set pubKey).bytes) = some key →
            keys.getPubKey key = CPubKey.set pubKey) →
        ∀ signed, signBlock keys block = some (true, signed) →
          checkBlockSignature keys signed = true) ∧
    ∀ block signed, block.isProofOfWork = true → signBlock keys block ≠ some (true, signed) := by
  constructor
  · rintro env valid s s' scriptPubKeyIn template made scriptSig nVersion nNonce hashMerkleRoot hash
      block rfl unique
    exact (checkBlockSignature_iff keys _ unique).mpr (paysToOwnKeyHash_minted made)
  intro block signed work signs
  obtain ⟨stake, -⟩ := signBlock_true signs
  rw [CBlock.isProofOfWork, stake] at work
  cases work

end Signs

def solePubKey : CPubKey := ⟨2 :: List.replicate 32 1, Or.inr rfl⟩

def soleKey : BlockKeys Unit where
  hash160 _ := List.replicate 20 7
  getKey keyID := if keyID = List.replicate 20 7 then some () else none
  getPubKey _ := solePubKey
  getPubKey_valid _ _ _ := by simp [solePubKey]
  sign _ _ := some [9]
  signs _ _ _ _ := ⟨[9], rfl⟩
  verify pubkey _ vchSig := decide (pubkey = solePubKey ∧ vchSig = [9])
  verifies _ _ vchSig signature := by
    obtain rfl := Option.some.inj signature
    simp

def keyHashScript : CScript :=
  getScriptForDestination (some (.keyID (List.replicate 20 7)))

/-- A coin that pays to the hash of the key. -/
def keyHashCoin : StakeCoin where
  tx := ⟨7, 1, [{ prevout := ⟨5, 0⟩ }], [⟨1000 * COIN, keyHashScript⟩], 0, []⟩
  n := 0
  hashBlock := 2
  nonneg := by
    intro out member
    obtain rfl := List.mem_singleton.mp member
    decide

def keyHashMiner : MinerEnv :=
  { stakingMiner with
    getKey := fun keyID => (soleKey.getKey keyID).map fun key => (soleKey.getPubKey key).bytes }

def keyHashState : MinerState :=
  { stakingState (spendingTx ⟨9, 0⟩) (2000 * COIN) with
    wallet := ⟨2000 * COIN, some 0, [keyHashCoin], 1599999940⟩ }

/-- The stake of the coin pays to the key itself, and the signature of its block is accepted. -/
theorem minted_block_verified_keyHashCoin : ∃ template s' signed,
    createNewBlock keyHashMiner (fun _ => true) keyHashState [] true = some (some template, s') ∧
      signBlock soleKey (template.minted keyHashMiner [0x51] 4 0 5 6) = some (true, signed) ∧
      checkBlockSignature soleKey signed = true := by
  have mints : givesOne (fun template =>
      (template.minted keyHashMiner [0x51] 4 0 5 6).stakeOutput.map
          (fun txout => solver txout.scriptPubKey []) = some (true, .pubkey, [solePubKey.bytes]) ∧
        (signBlock soleKey (template.minted keyHashMiner [0x51] 4 0 5 6)).map Prod.fst = some true)
      (createNewBlock keyHashMiner (fun _ => true) keyHashState [] true) = true := by decide +kernel
  obtain ⟨template, s', made, mints⟩ := exists_of_givesOne mints
  obtain ⟨pays, signs⟩ := of_decide_eq_true mints
  obtain ⟨⟨_, signed⟩, signs, rfl⟩ := Option.map_eq_some_iff.mp signs
  refine ⟨template, s', signed, made, signs,
    (minted_block_verified soleKey).1 made [0x51] 4 0 5 6 _ rfl ?_ signed signs⟩
  intro txout pubKey output solved key _
  rw [output, Option.map_some, solved] at pays
  obtain rfl : pubKey = solePubKey.bytes := by simpa using pays
  rfl

end Esbcoin
