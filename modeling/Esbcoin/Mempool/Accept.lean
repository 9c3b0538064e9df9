import Esbcoin.Mempool
import Esbcoin.Validation.ConnectBlock

/-!
# Accepting a transaction

`AcceptToMemoryPool` and `AcceptableInputs` (`src/main.cpp:1103-1126, 1135-1516`). Both go through
the same checks, the second without those of scripts and standardness and without storing the
transaction; they are one function whose differences are the record `AcceptRules`. The pool they
are given is always the global one. Comparisons of priorities, and the rate limiter for free
transactions, are floating point and answered by `AcceptEnv`.
-/

namespace Esbcoin

/-- `REJECT_DUPLICATE` (`main.h:109`). -/
def REJECT_DUPLICATE : UInt8 := 0x12

/-- `REJECT_INSUFFICIENTFEE` (`main.h:112`). -/
def REJECT_INSUFFICIENTFEE : UInt8 := 0x42

/-- `MAX_TX_SIGOPS` (`main.h:70`). -/
def MAX_TX_SIGOPS : Nat := MAX_BLOCK_SIGOPS / 5

/-- `DEFAULT_BLOCK_PRIORITY_SIZE` (`main.h:59`). -/
def DEFAULT_BLOCK_PRIORITY_SIZE : Nat := 50000

/-- `MEMPOOL_HEIGHT` (`txmempool.h:34`). -/
def MEMPOOL_HEIGHT : Int := 0x7FFFFFFF

/-- How a transaction is refused. -/
inductive AcceptFailure where
  | failure (failure : Failure)
  /-- `*pfMissingInputs` is set. -/
  | missingInputs
deriving DecidableEq, Repr

/-- What accepting a transaction asks of the rest of the node. -/
structure AcceptEnv extends ConnectEnv where
  /-- `Params().RequireStandard()`. -/
  requireStandard : Bool
  /-- The reason of `IsStandardTx`, where it returns false. -/
  isStandardTx : CTransaction → Option String
  areInputsStandard : CTransaction → FlatCoins → Bool
  mapBlockIndex : BlockMap
  pcoinsTip : CoinsView
  /-- `chainActive.Height()`. -/
  chainHeight : Int
  /-- `GetTime()`. -/
  time : Int
  /-- The keys of `mapObfuscationBroadcastTxes`. -/
  obfuscationBroadcastTxes : List UInt256
  /-- `::minRelayTxFee.nSatoshisPerK`. -/
  minRelayTxFee : Int
  /-- `GetBoolArg("-relaypriority", true)`. -/
  relayPriority : Bool
  /-- `AllowFree(view.GetPriority(tx, chainActive.Height() + 1))`. -/
  allowFree : CTransaction → FlatCoins → Bool
  /-- `dFreeCount` has reached the limit of `-limitfreerelay`. -/
  rateLimited : Bool

/-- What `CCoinsViewMemPool` shows over the tip (`txmempool.cpp:706-723`). -/
def CTxMemPool.viewOver (pool : CTxMemPool) (base : FlatCoins) : FlatCoins where
  get txid :=
    match pool.mapTx.lookup txid with
    | some entry => (CCoins.fromTx entry.tx MEMPOOL_HEIGHT).visible
    | none => base.get txid
  cleaned {txid coins} h := by
    cases found : pool.mapTx.lookup txid with
    | some entry =>
      rw [found] at h
      obtain ⟨-, rfl⟩ := CCoins.visible_eq_some.mp h
      exact CCoins.cleaned_cleanup _
    | none =>
      rw [found] at h
      exact base.cleaned h
  unspent {txid coins} h := by
    cases found : pool.mapTx.lookup txid with
    | some entry =>
      rw [found] at h
      obtain ⟨pruned, rfl⟩ := CCoins.visible_eq_some.mp h
      exact pruned
    | none =>
      rw [found] at h
      exact base.unspent h

/-- `CTxMemPool::ApplyDeltas` (`txmempool.cpp:686-695`). -/
def CTxMemPool.applyDeltas (pool : CTxMemPool) (hash : UInt256) (dPriorityDelta : ℚ)
    (nFeeDelta : Int) : ℚ × Int :=
  match pool.mapDeltas.lookup hash with
  | none => (dPriorityDelta, nFeeDelta)
  | some deltas => (Binary64.add dPriorityDelta deltas.1, nFeeDelta + deltas.2)

/-- `CFeeRate::GetFee` (`amount.cpp:18-30`). -/
def getFee (chainHeight nSatoshisPerK : Int) (nSize : Nat) : Int :=
  let nFeePerK :=
    if activeProtocol chainHeight ≥ CONSENSUS_FORK_PROTO ∧ nSatoshisPerK = 10000 then 250000
    else nSatoshisPerK
  let nFee := (nFeePerK * nSize).tdiv 1000
  if nFee = 0 ∧ nFeePerK > 0 then nFeePerK else nFee

/-- `GetMinRelayFee` (`main.cpp:1105-1133`). -/
def getMinRelayFee (env : AcceptEnv) (pool : CTxMemPool) (tx : CTransaction) (nBytes : Nat)
    (fAllowFree : Bool) : Int :=
  let (dPriorityDelta, nFeeDelta) := pool.applyDeltas tx.getHash 0 0
  if dPriorityDelta > 0 ∨ nFeeDelta > 0 then 0
  else
    let nMinFee :=
      if fAllowFree && nBytes < DEFAULT_BLOCK_PRIORITY_SIZE - 1000 then 0
      else getFee env.chainHeight env.minRelayTxFee nBytes
    if moneyRange env.params nMinFee then nMinFee else env.params.maxMoneyOut

/-- How the two functions differ. -/
structure AcceptRules where
  /-- The name in the texts of the errors. -/
  name : String
  /-- Coinstakes and transactions that are not standard are refused. -/
  loose : Bool
  /-- Scripts are run. -/
  fScriptChecks : Bool
  /-- The transaction is stored. -/
  stores : Bool

/-- Fail with a failure of the checks below if a rule is broken. -/
def refuseIf (broken : Bool) (failure : Failure) : Except AcceptFailure Unit :=
  if broken then .error (.failure failure) else .ok ()

/-- A check that other functions make too. -/
def refusing {α : Type} (check : Except Failure α) : Except AcceptFailure α :=
  check.mapError .failure

/-- The checks on the transaction alone and on the pool (`main.cpp:1141-1189, 1334-1381`). -/
def acceptLoose (rules : AcceptRules) (env : AcceptEnv) (pool : CTxMemPool) (tx : CTransaction) :
    Except AcceptFailure Unit := do
  refusing (checkTransaction env.toCheckEnv tx 0)
  refuseIf tx.isCoinBase (dos 100 "coinbase")
  refuseIf (rules.loose && tx.isCoinStake) (dos 100 "coinstake")
  refuseIf (rules.loose && env.requireStandard && (env.isStandardTx tx).isSome)
    (.invalid ⟨0, REJECT_NONSTANDARD, (env.isStandardTx tx).getD "", false⟩)
  refuseIf (pool.contains tx.getHash) (.error "")
  refuseIf (tx.vin.any fun txin =>
      match env.mapLockedInputs.lookup txin.prevout with
      | some hash => hash != tx.getHash
      | none => false)
    (dos 0 "tx-lock-conflict")
  refuseIf (tx.vin.any fun txin => pool.mapNextTx.contains txin.prevout) (.error "")

/-- The checks on the inputs (`main.cpp:1191-1245, 1383-1436`), with the value of the inputs. -/
def acceptInputs (rules : AcceptRules) (env : AcceptEnv) (view : FlatCoins) (tx : CTransaction) :
    Except AcceptFailure Int := do
  refuseIf (view.get tx.getHash).isSome (.error "")
  if tx.vin.any fun txin => (view.get txin.prevout.hash).isNone then .error .missingInputs
  refuseIf (!view.haveInputs tx)
    (.invalid ⟨0, REJECT_DUPLICATE, "bad-txns-inputs-spent", false⟩)
  let nValueIn ← refusing (orCrash (view.getValueIn tx))
  refuseIf (rules.loose && env.requireStandard && !env.areInputsStandard tx view)
    (.error (rules.name ++ ": : nonstandard transaction input"))
  refuseIf (env.getLegacySigOpCount tx + env.getP2SHSigOpCount tx view > MAX_TX_SIGOPS)
    (.invalid ⟨0, REJECT_NONSTANDARD, "bad-txns-too-many-sigops", false⟩)
  .ok nValueIn

/-- All that is checked before the fees, with the entry for the pool. -/
def acceptBefore (rules : AcceptRules) (env : AcceptEnv) (pool : CTxMemPool) (tx : CTransaction) :
    Except AcceptFailure CTxMemPoolEntry := do
  acceptLoose rules env pool tx
  let nValueIn ← acceptInputs rules env (pool.viewOver env.pcoinsTip.coins) tx
  let nValueOut ← refusing (orCrash tx.getValueOut)
  .ok ⟨tx, nValueIn - nValueOut, tx.getSerializeSize, env.time, UInt32.ofInt env.chainHeight⟩

/-- The checks on the fee (`main.cpp:1259-1292, 1448-1481`). -/
def acceptFees (env : AcceptEnv) (pool : CTxMemPool) (entry : CTxMemPoolEntry)
    (fLimitFree : Bool) : Except AcceptFailure Unit := do
  let relayFee := getFee env.chainHeight env.minRelayTxFee entry.nTxSize
  refuseIf (fLimitFree && entry.nFee < getMinRelayFee env pool entry.tx entry.nTxSize true)
    (.invalid ⟨0, REJECT_INSUFFICIENTFEE, "insufficient fee", false⟩)
  refuseIf (env.relayPriority && entry.nFee < relayFee &&
      !env.allowFree entry.tx (pool.viewOver env.pcoinsTip.coins))
    (.invalid ⟨0, REJECT_INSUFFICIENTFEE, "insufficient priority", false⟩)
  refuseIf (fLimitFree && entry.nFee < relayFee && env.rateLimited)
    (.invalid ⟨0, REJECT_INSUFFICIENTFEE, "rate limited free transaction", false⟩)

/-- `CheckInputs` without a queue for the scripts. -/
def acceptCheckInputs (env : AcceptEnv) (pool : CTxMemPool) (tx : CTransaction)
    (fScriptChecks : Bool) (flags : UInt32) : Except AcceptFailure Unit := do
  let view : CoinsView := ⟨pool.viewOver env.pcoinsTip.coins, env.pcoinsTip.hashBlock⟩
  let _ ← refusing (checkInputs { env.toConnectEnv with nScriptCheckThreads := 0 }
    env.mapBlockIndex view tx fScriptChecks flags)

/-- The checks behind those on the fee (`main.cpp:1294-1317, 1483-1507`). -/
def acceptAfter (rules : AcceptRules) (env : AcceptEnv) (pool : CTxMemPool)
    (entry : CTxMemPoolEntry) (fRejectInsaneFee : Bool) : Except AcceptFailure Unit := do
  refuseIf (fRejectInsaneFee &&
      entry.nFee > getFee env.chainHeight env.minRelayTxFee entry.nTxSize * 10000)
    (.error (rules.name ++ ": : insane fees"))
  acceptCheckInputs env pool entry.tx rules.fScriptChecks STANDARD_SCRIPT_VERIFY_FLAGS
  if rules.fScriptChecks then
    acceptCheckInputs env pool entry.tx true MANDATORY_SCRIPT_VERIFY_FLAGS

/-- The pool once a mixing transaction has been given priority; the fee is `0.1 * COIN`. -/
def prioritised (pool : CTxMemPool) (mixing : Bool) (hash : UInt256) : CTxMemPool :=
  if mixing then pool.prioritiseTransaction hash 1000 10000000 else pool

/-- All that is checked behind the priority. -/
def acceptRest (rules : AcceptRules) (env : AcceptEnv) (pool : CTxMemPool)
    (entry : CTxMemPoolEntry) (fLimitFree fRejectInsaneFee mixing ignoreFees : Bool) :
    Except AcceptFailure Unit := do
  if !mixing && !ignoreFees then acceptFees env pool entry fLimitFree
  acceptAfter rules env pool entry fRejectInsaneFee

/-- The common body: `mixing` transactions get priority in place of the checks on the fee. -/
def accept (rules : AcceptRules) (env : AcceptEnv) (pool : CTxMemPool) (tx : CTransaction)
    (fLimitFree fRejectInsaneFee mixing ignoreFees : Bool) :
    CTxMemPool × Except AcceptFailure Unit :=
  match acceptBefore rules env pool tx with
  | .error failure => (pool, .error failure)
  | .ok entry =>
    let pool' := prioritised pool mixing tx.getHash
    match acceptRest rules env pool' entry fLimitFree fRejectInsaneFee mixing ignoreFees with
    | .error failure => (pool', .error failure)
    | .ok () =>
      (if rules.stores then pool'.addUnchecked tx.getHash entry else pool', .ok ())

/-- How `AcceptToMemoryPool` checks. -/
def acceptToMemoryPoolRules : AcceptRules where
  name := "AcceptToMemoryPool"
  loose := true
  fScriptChecks := true
  stores := true

/-- How `AcceptableInputs` checks. -/
def acceptableInputsRules : AcceptRules where
  name := "AcceptableInputs"
  loose := false
  fScriptChecks := false
  stores := false

/-- The transaction is one of the mixing. -/
def AcceptEnv.isMixing (env : AcceptEnv) (tx : CTransaction) : Bool :=
  env.obfuscationBroadcastTxes.contains tx.getHash

/-- `AcceptToMemoryPool` (`main.cpp:1135-1326`). -/
def acceptToMemoryPool (env : AcceptEnv) (pool : CTxMemPool) (tx : CTransaction)
    (fLimitFree fRejectInsaneFee ignoreFees : Bool) : CTxMemPool × Except AcceptFailure Unit :=
  accept acceptToMemoryPoolRules env pool tx fLimitFree fRejectInsaneFee (env.isMixing tx)
    ignoreFees

/-- `AcceptableInputs` (`main.cpp:1328-1516`). -/
def acceptableInputs (env : AcceptEnv) (pool : CTxMemPool) (tx : CTransaction)
    (fLimitFree fRejectInsaneFee isDSTX : Bool) : CTxMemPool × Except AcceptFailure Unit :=
  accept acceptableInputsRules env pool tx fLimitFree fRejectInsaneFee isDSTX false

/-! ## The pool after a refusal -/

theorem CTxMemPool.prioritiseTransaction_ne (pool : CTxMemPool) (hash : UInt256)
    (dPriorityDelta : ℚ) {nFeeDelta : Int} (some : nFeeDelta ≠ 0) :
    pool.prioritiseTransaction hash dPriorityDelta nFeeDelta ≠ pool := by
  intro same
  have deltas := congrArg (fun pool => pool.mapDeltas.lookup hash) same
  simp only [prioritiseTransaction, AList.lookup_insert] at deltas
  cases found : pool.mapDeltas.lookup hash with
  | none =>
    rw [found] at deltas
    cases deltas
  | some old =>
    rw [found] at deltas
    simp only [Option.getD_some, Option.some.injEq, Prod.ext_iff] at deltas
    omega

variable {pool : CTxMemPool} {tx : CTransaction} {env : AcceptEnv}

theorem prioritised_eq_iff {mixing : Bool} {hash : UInt256} :
    prioritised pool mixing hash = pool ↔ mixing = false := by
  cases mixing with
  | false => exact iff_of_true rfl rfl
  | true =>
    exact iff_of_false (pool.prioritiseTransaction_ne hash 1000 (by decide)) Bool.false_ne_true.symm

/-- All that is checked before the fees passes, and a check behind them fails. -/
def RefusedLate (rules : AcceptRules) (env : AcceptEnv) (pool : CTxMemPool) (tx : CTransaction)
    (fRejectInsaneFee : Bool) : Prop :=
  ∃ entry failure, acceptBefore rules env pool tx = .ok entry ∧
    acceptAfter rules env pool entry fRejectInsaneFee = .error failure

theorem accept_unchanged_iff (rules : AcceptRules) (env : AcceptEnv) (pool : CTxMemPool)
    (tx : CTransaction) (fLimitFree fRejectInsaneFee mixing ignoreFees : Bool) :
    (∀ failure,
        (accept rules env pool tx fLimitFree fRejectInsaneFee mixing ignoreFees).2 =
            .error failure →
          (accept rules env pool tx fLimitFree fRejectInsaneFee mixing ignoreFees).1 = pool) ↔
      ¬ (mixing = true ∧ RefusedLate rules env pool tx fRejectInsaneFee) := by
  unfold accept RefusedLate
  cases before : acceptBefore rules env pool tx with
  | error failure => simp
  | ok entry =>
    cases mixing with
    | false =>
      refine iff_of_true (fun failure => ?_) (fun late => absurd late.1 Bool.false_ne_true)
      dsimp only
      split
      · exact fun _ => rfl
      · rintro ⟨⟩
    | true =>
      have rest : acceptRest rules env (prioritised pool true tx.getHash) entry fLimitFree
          fRejectInsaneFee true ignoreFees = acceptAfter rules env pool entry fRejectInsaneFee := rfl
      simp only [rest]
      cases after : acceptAfter rules env pool entry fRejectInsaneFee with
      | error failure =>
        refine iff_of_false (fun unchanged => ?_)
          (fun early => early ⟨trivial, entry, failure, rfl, after⟩)
        exact Bool.false_ne_true.symm (prioritised_eq_iff.mp (unchanged failure rfl))
      | ok accepted =>
        refine iff_of_true (fun failure refused => (by cases refused)) ?_
        rintro ⟨-, entry', failure, same, refused⟩
        cases same
        rw [after] at refused
        cases refused

/-! ## What is stored has been checked -/

private theorem accept_bind_ok {α β : Type} {x : Except AcceptFailure α}
    {f : α → Except AcceptFailure β} {b : β} :
    (x >>= f) = .ok b ↔ ∃ a, x = .ok a ∧ f a = .ok b := by
  cases x <;> simp [bind, Except.bind]

private theorem refuseIf_eq_ok {broken : Bool} {failure : Failure} {u : Unit} :
    refuseIf broken failure = .ok u ↔ broken = false := by
  cases broken <;> simp [refuseIf]

private theorem refusing_eq_ok {α : Type} {check : Except Failure α} {a : α} :
    refusing check = .ok a ↔ check = .ok a := by
  cases check <;> simp [refusing, Except.mapError]

theorem nodup_of_checkTransaction {env : CheckEnv} {nBlockTime : Int}
    (h : checkTransaction env tx nBlockTime = .ok ()) : tx.prevouts.Nodup := by
  simp only [checkTransaction, bind_ok_unit, rejectIf_eq_ok] at h
  obtain ⟨-, -, -, -, distinct, -⟩ := h
  simpa using distinct

/-- The checks on the pool are those that `addUnchecked` relies on. -/
theorem admits_of_acceptLoose {rules : AcceptRules} (h : acceptLoose rules env pool tx = .ok ()) :
    pool.Admits tx := by
  simp only [acceptLoose, accept_bind_ok, refuseIf_eq_ok, refusing_eq_ok] at h
  obtain ⟨_, checked, _, _, _, _, _, _, _, new, _, _, unspent⟩ := h
  refine ⟨new, nodup_of_checkTransaction checked, fun prevout member => ?_⟩
  obtain ⟨txin, hin, rfl⟩ := List.mem_map.mp member
  have free := List.any_eq_false.mp unspent txin hin
  exact (AssocMap.contains_eq_false_iff _ _).mp (by simpa using free)

/-- The inputs of a transaction that `AcceptableInputs` takes are unspent in the pool and below. -/
theorem unspent_of_acceptableInputs {fLimitFree fRejectInsaneFee isDSTX : Bool}
    (accepted : (acceptableInputs env pool tx fLimitFree fRejectInsaneFee isDSTX).2 = .ok ()) :
    pool.Admits tx ∧ tx.isCoinBase = false ∧
      (pool.viewOver env.pcoinsTip.coins).haveInputs tx = true := by
  unfold acceptableInputs accept at accepted
  cases before : acceptBefore acceptableInputsRules env pool tx with
  | error failure => simp [before] at accepted
  | ok entry =>
    simp only [acceptBefore, accept_bind_ok] at before
    obtain ⟨_, loose, nValueIn, inputs, -⟩ := before
    refine ⟨admits_of_acceptLoose loose, ?_, ?_⟩
    · simp only [acceptLoose, accept_bind_ok, refuseIf_eq_ok, refusing_eq_ok] at loose
      obtain ⟨_, -, _, coinBase, -⟩ := loose
      exact coinBase
    simp only [acceptInputs, accept_bind_ok, refuseIf_eq_ok] at inputs
    obtain ⟨_, -, inputs⟩ := inputs
    split at inputs
    · cases inputs
    · simp only [accept_bind_ok, refuseIf_eq_ok] at inputs
      obtain ⟨_, available, -⟩ := inputs
      simpa using available

/-- When a refusal leaves the pool as it was, for both functions: the last flag is `ignoreFees` of
the one and `isDSTX` of the other. -/
theorem refused_pool_unchanged_iff (env : AcceptEnv) (pool : CTxMemPool) (tx : CTransaction)
    (fLimitFree fRejectInsaneFee flag : Bool) :
    ((∀ failure,
        (acceptToMemoryPool env pool tx fLimitFree fRejectInsaneFee flag).2 = .error failure →
          (acceptToMemoryPool env pool tx fLimitFree fRejectInsaneFee flag).1 = pool) ↔
        ¬ (env.isMixing tx = true ∧
          RefusedLate acceptToMemoryPoolRules env pool tx fRejectInsaneFee)) ∧
      ((∀ failure,
          (acceptableInputs env pool tx fLimitFree fRejectInsaneFee flag).2 = .error failure →
            (acceptableInputs env pool tx fLimitFree fRejectInsaneFee flag).1 = pool) ↔
        ¬ (flag = true ∧ RefusedLate acceptableInputsRules env pool tx fRejectInsaneFee)) :=
  ⟨accept_unchanged_iff acceptToMemoryPoolRules env pool tx fLimitFree fRejectInsaneFee
      (env.isMixing tx) flag,
    accept_unchanged_iff acceptableInputsRules env pool tx fLimitFree fRejectInsaneFee flag false⟩

/-- A node with one unspent output, which has been told of the mixing transaction 2. -/
def mixingEnv : AcceptEnv :=
  { lenientEnv with
    requireStandard := true
    isStandardTx := fun _ => none
    areInputsStandard := fun _ _ => true
    mapBlockIndex := (∅ : BlockMap).insert 300 { phashBlock := some 300, nHeight := 300 }
    pcoinsTip := ⟨FlatCoins.empty.put 1
      { vout := [⟨5 * COIN, [0x51]⟩], nHeight := 100, nVersion := 1 }, 300⟩
    chainHeight := 300
    time := 1600000000
    obfuscationBroadcastTxes := [2]
    minRelayTxFee := 10000
    relayPriority := true
    allowFree := fun _ _ => true
    rateLimited := false }

def overspendingTx : CTransaction := ⟨2, 1, [⟨⟨1, 0⟩, [], 0⟩], [⟨6 * COIN, [0x51]⟩], 0, []⟩

/-- The transaction is refused for its inputs by both functions, and keeps a delta. -/
theorem mixing_refusal_leaves_delta :
    (acceptToMemoryPool mixingEnv .init overspendingTx true false true).2 =
        .error (.failure (dos 100 "bad-txns-in-belowout")) ∧
      (acceptToMemoryPool mixingEnv .init overspendingTx true false true).1.mapDeltas.lookup 2 =
        some (Binary64.add 0 1000, 10000000) ∧
      (acceptableInputs mixingEnv .init overspendingTx false false true).2 =
        .error (.failure (dos 100 "bad-txns-in-belowout")) ∧
      (acceptableInputs mixingEnv .init overspendingTx false false true).1.mapDeltas.lookup 2 =
        some (Binary64.add 0 1000, 10000000) ∧
      CTxMemPool.init.mapDeltas.lookup 2 = none := by
  refine ⟨?_, ?_, ?_, ?_, rfl⟩
  · rfl
  · rfl
  · rfl
  · rfl

end Esbcoin
