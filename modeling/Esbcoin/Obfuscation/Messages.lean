import Esbcoin.Obfuscation.Pool

/-!
# What a mixing masternode does

The requests `dsa`, `dsi` and `dss` (`src/obfuscation.cpp:51-370`), the progress of a session
(`Check`) and its timeouts. `AcceptToMemoryPool` and the signature of the masternode have their
outcome in the draws of a call, as the shuffles have their order.
-/

namespace Esbcoin

/-- What became of the final transaction (`obfuscation.cpp:576-653`). -/
inductive FinalOutcome where
  /-- `AcceptToMemoryPool` refuses it. -/
  | invalid
  /-- The masternode cannot sign its announcement. -/
  | unsigned
  | transmitted
deriving DecidableEq, Repr

/-- What `Check` draws: the order in which it shuffles the final transaction, and what becomes of
it. -/
structure CheckDraws where
  shuffleIn : List CTxIn → List CTxIn
  shuffleOut : List CTxOut → List CTxOut
  shuffleIn_perm : ∀ vin, (shuffleIn vin).Perm vin
  outcome : FinalOutcome

/-- The answer to a request: is it accepted, and what is `errorID` set to? -/
structure PoolAnswer where
  accepted : Bool
  errorID : Option PoolMessage
deriving DecidableEq, Repr

namespace MixingNode

variable (node : MixingNode)

/-- The value of the outputs that inputs spend, and is one of their transactions unknown
(`obfuscation.cpp:246-259`, `:972-983`)? -/
def valueIn (vin : List CTxIn) : Int × Bool :=
  vin.foldl (fun (nValueIn, missingTx) txin =>
    match node.getTransaction txin.prevout.hash with
    | none => (nValueIn, true)
    | some tx2 =>
      match tx2.vout[txin.prevout.n.toNat]? with
      | none => (nValueIn, missingTx)
      | some out => ((nValueIn + out.nValue).bmod (2 ^ 64), missingTx)) (0, false)

/-- `CObfuscationPool::IsCollateralValid` (`obfuscation.cpp:954-1007`). -/
def isCollateralValid (txCollateral : CTransaction) : Bool :=
  if txCollateral.vout.isEmpty then false
  else if txCollateral.nLockTime ≠ 0 then false
  else if txCollateral.vout.any fun o => !o.scriptPubKey.isNormalPaymentScript then false
  else
    let nValueOut := (txCollateral.vout.map CTxOut.nValue).sum.bmod (2 ^ 64)
    let (nValueIn, missingTx) := node.valueIn txCollateral.vin
    if missingTx then false
    else if (nValueIn - nValueOut).bmod (2 ^ 64) < OBFUSCATION_COLLATERAL then false
    else decide ((acceptableInputs node.accept node.pool txCollateral true false false).2 = .ok ())

/-- The transaction of a client's entry alone, in the `dsi` message (`obfuscation.cpp:222-259`). -/
def entryTx (vin : List CTxIn) (vout : List CTxOut) : CTransaction :=
  node.toTransaction { CMutableTransaction.empty with vin := vin, vout := vout }

/-- `nValueIn - nValueOut > nValueIn * .01` (`obfuscation.cpp:268`), in floating point. -/
def feesTooHigh (nValueIn nValueOut : Int) : Bool :=
  decide (Binary64.mul (Binary64.nearest nValueIn) (Binary64.nearest (1 / 100)) <
    Binary64.nearest ((nValueIn - nValueOut).bmod (2 ^ 64) : ℚ))

/-- An entry is checked like a transaction (`obfuscation.cpp:221-293`); an error is returned. -/
def checkEntry (vin : List CTxIn) (vout : List CTxOut) : Except PoolMessage Unit :=
  match vout.find? fun o =>
      o.scriptPubKey.length != 25 || !o.scriptPubKey.isNormalPaymentScript with
  | some o =>
    .error (if o.scriptPubKey.length ≠ 25 then .ERR_NON_STANDARD_PUBKEY else .ERR_INVALID_SCRIPT)
  | none =>
    let nValueOut := (vout.map CTxOut.nValue).sum.bmod (2 ^ 64)
    let (nValueIn, missingTx) := node.valueIn vin
    if nValueIn > OBFUSCATION_POOL_MAX then .error .ERR_MAXIMUM
    else if missingTx then .error .ERR_MISSING_TX
    else if feesTooHigh nValueIn nValueOut then .error .ERR_FEES
    else if (acceptableInputs node.accept node.pool (node.entryTx vin vout) false false true).2 ≠
        .ok () then .error .ERR_INVALID_TX
    else .ok ()

end MixingNode

/-- `CObfuscationPool::GetDenominations` (`obfuscation.cpp:1962-2012`) of all denominations. -/
def getDenominations (vout : List CTxOut) : Nat :=
  if vout.any fun out => !obfuScationDenominations.contains out.nValue then 0
  else
    (obfuScationDenominations.mapIdx fun c d =>
      if vout.any fun out => out.nValue == d then 2 ^ c else 0).sum

namespace CObfuscationPool

variable (pool : CObfuscationPool)

/-- `CObfuscationPool::IsCompatibleWithEntries` (`obfuscation.cpp:1840-1858`). -/
def isCompatibleWithEntries (vout : List CTxOut) : Bool :=
  getDenominations vout != 0 &&
    pool.entries.all fun v => getDenominations vout == getDenominations v.vout

/-- `CObfuscationPool::IsCompatibleWithSession` (`obfuscation.cpp:1860-1914`); `newID` is
`1 + (rand() % 999999)`. -/
def isCompatibleWithSession (node : MixingNode) (nDenom : Int) (txCollateral : CTransaction)
    (newID : Int) : PoolAnswer × CObfuscationPool :=
  if nDenom = 0 then (⟨false, none⟩, pool)
  else if !node.isCollateralValid txCollateral then
    (⟨false, some .ERR_INVALID_COLLATERAL⟩, pool)
  else
    let pool := if pool.sessionUsers < 0 then { pool with sessionUsers := 0 } else pool
    if pool.sessionUsers = 0 then
      let pool := { pool with
        sessionID := newID
        sessionDenom := nDenom
        sessionUsers := pool.sessionUsers + 1
        lastTimeChanged := node.timeMillis }
      let pool := updateState node.toMixingEnv pool .queue
      (⟨true, none⟩,
        { pool with vecSessionCollateral := pool.vecSessionCollateral ++ [txCollateral] })
    else if (pool.state ≠ .acceptingEntries ∧ pool.state ≠ .queue) ∨
        pool.sessionUsers ≥ node.nPoolMaxTransactions then
      (⟨false, some (if pool.sessionUsers ≥ node.nPoolMaxTransactions then .ERR_QUEUE_FULL
        else .ERR_MODE)⟩, pool)
    else if nDenom ≠ pool.sessionDenom then (⟨false, some .ERR_DENOM⟩, pool)
    else
      (⟨true, none⟩,
        { pool with
          sessionUsers := pool.sessionUsers + 1
          lastTimeChanged := node.timeMillis
          vecSessionCollateral := pool.vecSessionCollateral ++ [txCollateral] })

/-- `CObfuscationPool::AddEntry` (`obfuscation.cpp:1013-1062`). -/
def addEntry (node : MixingNode) (newInput : List CTxIn) (nAmount : Int)
    (txCollateral : CTransaction) (newOutput : List CTxOut) : PoolAnswer × CObfuscationPool :=
  let refused (errorID : PoolMessage) : PoolAnswer × CObfuscationPool :=
    (⟨false, some errorID⟩, { pool with sessionUsers := pool.sessionUsers - 1 })
  if !node.fMasterNode then (⟨false, none⟩, pool)
  else if newInput.any fun txin => txin.prevout.isNull || decide (nAmount < 0) then
    refused .ERR_INVALID_INPUT
  else if !node.isCollateralValid txCollateral then refused .ERR_INVALID_COLLATERAL
  else if (pool.entries.length : Int) ≥ node.nPoolMaxTransactions then refused .ERR_ENTRIES_FULL
  else if newInput.any fun txin =>
      pool.entries.any fun v => v.sev.any fun s => s.toCTxIn == txin then
    refused .ERR_ALREADY_HAVE
  else
    let v : CObfuScationEntry :=
      ⟨newInput.map CTxDSIn.ofTxIn, newOutput, nAmount, txCollateral, node.time⟩
    (⟨true, some .MSG_ENTRIES_ADDED⟩, { pool with entries := pool.entries ++ [v] })

/-- `CObfuscationPool::SignaturesComplete` (`obfuscation.cpp:1104-1112`). -/
def signaturesComplete : Bool := pool.entries.all fun v => v.sev.all fun s => s.fHasSig

/-- `CObfuscationPool::CheckFinalTransaction` (`obfuscation.cpp:576-653`). -/
def checkFinalTransaction (env : MixingEnv) (outcome : FinalOutcome) : CObfuscationPool :=
  if !env.fMasterNode then pool
  else
    match outcome with
    | .invalid => updateState env (pool.setNull env.timeMillis) .acceptingEntries
    | .unsigned => pool
    | .transmitted => pool.setNull env.timeMillis

/-- The transaction of all the entries, shuffled (`obfuscation.cpp:529-546`). -/
def mixedTransaction (draws : CheckDraws) : CMutableTransaction :=
  { CMutableTransaction.empty with
    vin := draws.shuffleIn (pool.entries.flatMap fun e => e.sev.map CTxDSIn.toCTxIn)
    vout := draws.shuffleOut (pool.entries.flatMap CObfuScationEntry.vout) }

/-- The first part of `Check` (`obfuscation.cpp:514-521`): the pool is full. -/
def checkFull (env : MixingEnv) : CObfuscationPool :=
  if env.fMasterNode && pool.state == .acceptingEntries &&
      decide ((pool.entries.length : Int) ≥ env.nPoolMaxTransactions) then
    updateState env pool .finalizeTransaction
  else pool

/-- The second part of `Check` (`obfuscation.cpp:523-551`): the final transaction is made. -/
def checkFinalize (env : MixingEnv) (draws : CheckDraws) : CObfuscationPool :=
  if pool.state = .finalizeTransaction then
    let pool := updateState env pool .signing
    if env.fMasterNode then { pool with finalTransaction := pool.mixedTransaction draws } else pool
  else pool

/-- The third part of `Check` (`obfuscation.cpp:553-559`): all have signed. -/
def checkSigned (env : MixingEnv) (draws : CheckDraws) : CObfuscationPool :=
  if env.fMasterNode && pool.state == .signing && pool.signaturesComplete then
    (updateState env pool .transmission).checkFinalTransaction env draws.outcome
  else pool

/-- The last part of `Check` (`obfuscation.cpp:561-567`): an end is shown for ten seconds. -/
def checkEnded (env : MixingEnv) : CObfuscationPool :=
  if (pool.state = .error ∨ pool.state = .success) ∧
      env.timeMillis - pool.lastTimeChanged ≥ 10000 then pool.setNull env.timeMillis
  else pool

/-- `CObfuscationPool::Check` (`obfuscation.cpp:507-568`). -/
def check (env : MixingEnv) (draws : CheckDraws) : CObfuscationPool :=
  (((pool.checkFull env).checkFinalize env draws).checkSigned env draws).checkEnded env

variable (verifyScript : CScript → CScript → CMutableTransaction → Nat → Bool)

/-- `CObfuscationPool::SignatureValid` (`obfuscation.cpp:914-951`); `verifyScript` is `VerifyScript`
on an input of a transaction. -/
def signatureValid (newSig : CScript) (newVin : CTxIn) : Bool :=
  let sev := pool.entries.flatMap CObfuScationEntry.sev
  let txNew := { CMutableTransaction.empty with
    vin := sev.map CTxDSIn.toCTxIn
    vout := pool.entries.flatMap CObfuScationEntry.vout }
  match lastPosition newVin txNew.vin with
  | none => true
  | some n =>
    let sigPubKey := (sev[n]?.map CTxDSIn.prevPubKey).getD []
    verifyScript newSig sigPubKey
      { txNew with vin := txNew.vin.modify n fun txin => { txin with scriptSig := newSig } } n

/-- The loop over the entries in `AddScriptSig` (`obfuscation.cpp:1092-1097`); `none` is an end
without a place for the signature. -/
def addSigToEntries (newVin : CTxIn) : List CObfuScationEntry → Option (List CObfuScationEntry)
  | [] => none
  | e :: entries =>
    match e.addSig newVin with
    | some e => some (e :: entries)
    | none => (addSigToEntries newVin entries).map fun entries => e :: entries

/-- The loop over the final transaction in `AddScriptSig` (`obfuscation.cpp:1085-1091`). -/
def signFinal (newVin : CTxIn) (tx : CMutableTransaction) : CMutableTransaction :=
  { tx with
    vin := tx.vin.map fun vin =>
      if newVin.prevout = vin.prevout ∧ vin.nSequence = newVin.nSequence then
        { vin with scriptSig := newVin.scriptSig } else vin }

/-- `CObfuscationPool::AddScriptSig` (`obfuscation.cpp:1064-1101`). -/
def addScriptSig (newVin : CTxIn) : Bool × CObfuscationPool :=
  if pool.entries.any fun v => v.sev.any fun s => s.scriptSig == newVin.scriptSig then (false, pool)
  else if !pool.signatureValid verifyScript newVin.scriptSig newVin then (false, pool)
  else
    let pool := { pool with finalTransaction := signFinal newVin pool.finalTransaction }
    match addSigToEntries newVin pool.entries with
    | some entries => (true, { pool with entries := entries })
    | none => (false, pool)

/-- The loop over the signatures of a `dss` message (`obfuscation.cpp:322-327`). -/
def addScriptSigs (sigs : List CTxIn) : Bool × CObfuscationPool :=
  sigs.foldl (fun (success, pool) item =>
    let (added, pool) := pool.addScriptSig verifyScript item
    (added || success, pool)) (false, pool)

/-! ## Timeouts -/

/-- The loop over the entries in `CheckTimeout` (`obfuscation.cpp:846-861`), from those in front
on. -/
def dropExpired (env : MixingEnv) : List CObfuScationEntry → List CObfuScationEntry →
    CObfuscationPool → CObfuscationPool
  | kept, [], pool => { pool with entries := kept }
  | kept, e :: entries, pool =>
    if e.isExpired env.time then
      if kept.isEmpty && entries.isEmpty then pool.setNull env.timeMillis
      else dropExpired env kept entries pool
    else dropExpired env (kept ++ [e]) entries pool

/-- `GetTimeMillis() - lastTimeChanged` has reached some seconds and the lag of a client. -/
def timedOut (env : MixingEnv) (seconds : Int) : Bool :=
  let addLagTime := if env.fMasterNode then 0 else 10000
  decide (env.timeMillis - pool.lastTimeChanged ≥ seconds * 1000 + addLagTime)

/-- The sessions that hang (`obfuscation.cpp:839-876`). -/
def checkQueueTimeout (env : MixingEnv) : CObfuscationPool :=
  if pool.state = .acceptingEntries ∨ pool.state = .queue then
    let pool := dropExpired env [] pool.entries pool
    if pool.timedOut env OBFUSCATION_QUEUE_TIMEOUT then pool.setNull env.timeMillis else pool
  else if pool.timedOut env OBFUSCATION_QUEUE_TIMEOUT then
    updateState env (pool.setNull env.timeMillis) .error
  else pool

/-- The sessions in `CObfuscationPool::CheckTimeout` of a masternode (`obfuscation.cpp:839-886`). -/
def checkTimeout (env : MixingEnv) : CObfuscationPool :=
  let pool := pool.checkQueueTimeout env
  if pool.state = .signing ∧ pool.timedOut env OBFUSCATION_SIGNING_TIMEOUT then
    updateState env (pool.setNull env.timeMillis) .error
  else pool

/-- `CObfuscationPool::CheckForCompleteQueue` (`obfuscation.cpp:891-911`) on a masternode. -/
def checkForCompleteQueue (env : MixingEnv) : CObfuscationPool :=
  if pool.state = .queue ∧ pool.sessionUsers = env.nPoolMaxTransactions then
    updateState env pool .acceptingEntries
  else pool

/-! ## Requests -/

/-- The tests on the masternode itself in front of a `dsa` request (`obfuscation.cpp:57-96`): the
protocol of the peer, is the masternode in its own list, and was its last queue too recent? -/
structure DsaGate where
  compatible : Bool
  listed : Bool
  recent : Bool

/-- The message `dsa` (`obfuscation.cpp:53-107`). -/
def processDsa (node : MixingNode) (gate : DsaGate) (nDenom : Int) (txCollateral : CTransaction)
    (newID : Int) : PoolAnswer × CObfuscationPool :=
  if !gate.compatible then (⟨false, some .ERR_VERSION⟩, pool)
  else if !node.fMasterNode then (⟨false, some .ERR_NOT_A_MN⟩, pool)
  else if !gate.listed then (⟨false, some .ERR_MN_LIST⟩, pool)
  else if pool.sessionUsers = 0 ∧ gate.recent = true then (⟨false, some .ERR_RECENT⟩, pool)
  else pool.isCompatibleWithSession node nDenom txCollateral newID

/-- The message `dsi` (`obfuscation.cpp:177-303`). -/
def processDsi (node : MixingNode) (draws : CheckDraws) (compatible : Bool) (vin : List CTxIn)
    (nAmount : Int) (txCollateral : CTransaction) (vout : List CTxOut) :
    PoolAnswer × CObfuscationPool :=
  if !compatible then (⟨false, some .ERR_VERSION⟩, pool)
  else if !node.fMasterNode then (⟨false, some .ERR_NOT_A_MN⟩, pool)
  else if pool.sessionUsers < node.nPoolMaxTransactions then (⟨false, some .ERR_SESSION⟩, pool)
  else if !pool.isCompatibleWithEntries vout then (⟨false, some .ERR_EXISTING_TX⟩, pool)
  else
    match node.checkEntry vin vout with
    | .error errorID => (⟨false, some errorID⟩, pool)
    | .ok () =>
      match pool.addEntry node vin nAmount txCollateral vout with
      | (⟨true, errorID⟩, pool) => (⟨true, errorID⟩, pool.check node.toMixingEnv draws)
      | refused => refused

/-- The message `dss` (`obfuscation.cpp:321-341`). -/
def processDss (env : MixingEnv) (draws : CheckDraws) (compatible : Bool) (sigs : List CTxIn) :
    CObfuscationPool :=
  if !compatible then pool
  else
    match pool.addScriptSigs verifyScript sigs with
    | (true, pool) => pool.check env draws
    | (false, pool) => pool

end CObfuscationPool

/-- What happens to the pool of a masternode. -/
inductive MixingAction where
  | dsa (gate : CObfuscationPool.DsaGate) (nDenom : Int) (txCollateral : CTransaction) (newID : Int)
  | dsi (compatible : Bool) (vin : List CTxIn) (nAmount : Int) (txCollateral : CTransaction)
      (vout : List CTxOut)
  | dss (compatible : Bool) (sigs : List CTxIn)
  | checkTimeout
  | checkForCompleteQueue
  /-- `CObfuscationPool::Reset` (`obfuscation.cpp:384-392`). -/
  | reset

/-- A call of the masternode, with what it draws. -/
structure MixingCall where
  node : MixingNode
  draws : CheckDraws
  action : MixingAction

/-- A step of the mixing. -/
def mixingStep (verifyScript : CScript → CScript → CMutableTransaction → Nat → Bool)
    (pool : CObfuscationPool) (call : MixingCall) : CObfuscationPool :=
  let node := call.node
  let env := node.toMixingEnv
  match call.action with
  | .dsa gate nDenom txCollateral newID => (pool.processDsa node gate nDenom txCollateral newID).2
  | .dsi compatible vin nAmount txCollateral vout =>
    (pool.processDsi node call.draws compatible vin nAmount txCollateral vout).2
  | .dss compatible sigs => pool.processDss verifyScript env call.draws compatible sigs
  | .checkTimeout => pool.checkTimeout env
  | .checkForCompleteQueue => pool.checkForCompleteQueue env
  | .reset => pool.setNull env.timeMillis

end Esbcoin
