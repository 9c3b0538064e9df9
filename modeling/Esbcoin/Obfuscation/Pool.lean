import Esbcoin.Mempool.Accept
import Esbcoin.Script.SignatureHash

/-!
# The mixing pool

`CObfuscationPool` of `src/obfuscation.h` and `src/obfuscation.cpp`: what a masternode keeps of a
mixing session, and what a client keeps of its own entry. The clock, the random numbers and the
verdicts of the rest of the node are in the environment of a call. Relayed messages, the log, the
coins that the wallet locks and the texts for the user are left out.
-/

namespace Esbcoin

/-- `POOL_STATUS_*` (`obfuscation.h:26-34`). -/
inductive PoolStatus where
  | unknown
  | idle
  | queue
  | acceptingEntries
  | finalizeTransaction
  | signing
  | transmission
  | error
  | success
deriving DecidableEq, Repr

/-- `CObfuscationPool::messages` (`obfuscation.h:301-324`). -/
inductive PoolMessage where
  | ERR_ALREADY_HAVE
  | ERR_DENOM
  | ERR_ENTRIES_FULL
  | ERR_EXISTING_TX
  | ERR_FEES
  | ERR_INVALID_COLLATERAL
  | ERR_INVALID_INPUT
  | ERR_INVALID_SCRIPT
  | ERR_INVALID_TX
  | ERR_MAXIMUM
  | ERR_MN_LIST
  | ERR_MODE
  | ERR_NON_STANDARD_PUBKEY
  | ERR_NOT_A_MN
  | ERR_QUEUE_FULL
  | ERR_RECENT
  | ERR_SESSION
  | ERR_MISSING_TX
  | ERR_VERSION
  | MSG_NOERR
  | MSG_SUCCESS
  | MSG_ENTRIES_ADDED
deriving DecidableEq, Repr

/-- `OBFUSCATION_QUEUE_TIMEOUT` (`obfuscation.h:41`), in seconds. -/
def OBFUSCATION_QUEUE_TIMEOUT : Int := 30

/-- `OBFUSCATION_SIGNING_TIMEOUT` (`obfuscation.h:42`), in seconds. -/
def OBFUSCATION_SIGNING_TIMEOUT : Int := 15

/-- `OBFUSCATION_COLLATERAL` (`obfuscation.h:49`). -/
def OBFUSCATION_COLLATERAL : Int := 10 * COIN

/-- `OBFUSCATION_POOL_MAX` (`obfuscation.h:50`): `99999.99 * COIN`. -/
def OBFUSCATION_POOL_MAX : Int := 9999999000000

/-- `obfuScationDenominations` (`init.cpp:1649-1654`). -/
def obfuScationDenominations : List Int :=
  [10000 * COIN + 10000000, 1000 * COIN + 1000000, 100 * COIN + 100000, 10 * COIN + 10000,
    1 * COIN + 1000, 10000000 + 100]

/-- `CTxDSIn` (`obfuscation.h:61-77`), with the `prevPubKey` of `CTxIn`, which no message
carries. -/
structure CTxDSIn extends CTxIn where
  prevPubKey : CScript := []
  fHasSig : Bool := false
deriving DecidableEq, Repr

/-- `CTxDSIn(in)` for an input that came in a message. -/
def CTxDSIn.ofTxIn (txin : CTxIn) : CTxDSIn := { txin with }

/-- `CObfuScationEntry` (`obfuscation.h:95-156`). -/
structure CObfuScationEntry where
  sev : List CTxDSIn
  vout : List CTxOut
  amount : Int
  collateral : CTransaction
  addedTime : Int
deriving DecidableEq, Repr

namespace CObfuScationEntry

/-- The loop of `AddSig`; `none` is `false`. -/
def addSigTo (vin : CTxIn) : List CTxDSIn → Option (List CTxDSIn)
  | [] => none
  | s :: sev =>
    if s.prevout = vin.prevout ∧ s.nSequence = vin.nSequence then
      if s.fHasSig then none
      else some ({ s with scriptSig := vin.scriptSig, prevPubKey := [], fHasSig := true } :: sev)
    else (addSigTo vin sev).map fun sev => s :: sev

/-- `CObfuScationEntry::AddSig` (`obfuscation.h:134-150`). -/
def addSig (e : CObfuScationEntry) (vin : CTxIn) : Option CObfuScationEntry :=
  (addSigTo vin e.sev).map fun sev => { e with sev := sev }

/-- `CObfuScationEntry::IsExpired` (`obfuscation.h:152-155`). -/
def isExpired (e : CObfuScationEntry) (time : Int) : Bool :=
  decide (time - e.addedTime > OBFUSCATION_QUEUE_TIMEOUT)

end CObfuScationEntry

/-- The position that a loop over the inputs leaves in its variable, that of the last one that
equals `s` (`obfuscation.cpp:930-937`, `:1279-1285`). -/
def lastPosition (s : CTxIn) (vin : List CTxIn) : Option Nat :=
  (List.range vin.length).foldl (fun mine i => if vin[i]? = some s then some i else mine) none

theorem lastPosition_eq_none_iff {s : CTxIn} {vin : List CTxIn} :
    lastPosition s vin = none ↔ s ∉ vin := by
  have loop : ∀ (l : List Nat) (start : Option Nat),
      l.foldl (fun mine i => if vin[i]? = some s then some i else mine) start = none ↔
        start = none ∧ ∀ i ∈ l, vin[i]? ≠ some s := by
    intro l
    induction l with
    | nil => simp
    | cons i l ih =>
      intro start
      rw [List.foldl_cons, ih, List.forall_mem_cons]
      by_cases here : vin[i]? = some s
      · rw [if_pos here]
        exact iff_of_false (fun h => by cases h.1) fun h => h.2.1 here
      · rw [if_neg here]
        exact ⟨fun h => ⟨h.1, here, h.2⟩, fun h => ⟨h.1, h.2.2⟩⟩
  unfold lastPosition
  rw [loop, List.mem_iff_getElem?]
  constructor
  · rintro ⟨-, nowhere⟩ ⟨i, here⟩
    have below := (List.getElem?_eq_some_iff.mp here).1
    exact nowhere i (List.mem_range.mpr below) here
  · exact fun nowhere => ⟨rfl, fun i _ here => nowhere ⟨i, here⟩⟩

theorem lastPosition_congr {s : CTxIn} {vin vin' : List CTxIn} (length : vin'.length = vin.length)
    (same : ∀ i : Nat, vin'[i]? = some s ↔ vin[i]? = some s) :
    lastPosition s vin' = lastPosition s vin := by
  unfold lastPosition
  rw [length]
  congr 1
  funext mine i
  rw [if_congr (same i) rfl rfl]

theorem lastPosition_spec {s : CTxIn} {vin : List CTxIn} {mine : Nat}
    (found : lastPosition s vin = some mine) : vin[mine]? = some s := by
  refine List.foldlRecOn (motive := fun mine => ∀ i, mine = some i → vin[i]? = some s)
    (List.range vin.length) _ nofun ?_ mine found
  intro mine spec i _ j result
  by_cases here : vin[i]? = some s
  · rw [if_pos here] at result
    rw [← Option.some.inj result, here]
  · rw [if_neg here] at result
    exact spec j result

/-- `CMutableTransaction()` (`primitives/transaction.cpp:107`). -/
def CMutableTransaction.empty : CMutableTransaction := ⟨1, [], [], 0, []⟩

/-- `CObfuscationPool` (`obfuscation.h:264-299`). -/
structure CObfuscationPool where
  entries : List CObfuScationEntry
  finalTransaction : CMutableTransaction
  lastTimeChanged : Int
  state : PoolStatus
  sessionID : Int
  sessionUsers : Int
  vecSessionCollateral : List CTransaction
  sessionDenom : Int
deriving DecidableEq

/-- What kind of node it is, and its clock. -/
structure MixingEnv where
  fMasterNode : Bool
  /-- `Params().PoolMaxTransactions()`. -/
  nPoolMaxTransactions : Int
  /-- `GetTimeMillis()`. -/
  timeMillis : Int
  /-- `GetTime()`. -/
  time : Int

/-- What checking an entry asks of the rest of the node. -/
structure MixingNode extends MixingEnv where
  accept : AcceptEnv
  pool : CTxMemPool
  /-- `GetTransaction(hash, tx, hashBlock, true)`. -/
  getTransaction : UInt256 → Option CTransaction
  /-- The hash of a transaction. -/
  getHash : CMutableTransaction → UInt256

/-- `CTransaction(tx)` (`primitives/transaction.cpp:139`). -/
def MixingNode.toTransaction (node : MixingNode) (tx : CMutableTransaction) : CTransaction :=
  ⟨node.getHash tx, tx.nVersion, tx.vin, tx.vout, tx.nLockTime, tx.blob⟩

namespace CObfuscationPool

/-- `CObfuscationPool::SetNull` (`obfuscation.cpp:394-419`). -/
def setNull (pool : CObfuscationPool) (timeMillis : Int) : CObfuscationPool :=
  { pool with
    sessionUsers := 0
    vecSessionCollateral := []
    state := .idle
    sessionID := 0
    sessionDenom := 0
    entries := []
    finalTransaction := { pool.finalTransaction with vin := [], vout := [] }
    lastTimeChanged := timeMillis }

/-- `CObfuscationPool()` (`obfuscation.h:333-346`). -/
def init (timeMillis : Int) : CObfuscationPool :=
  setNull ⟨[], .empty, 0, .unknown, 0, 0, [], 0⟩ timeMillis

/-- `CObfuscationPool::UpdateState` (`obfuscation.h:411-426`). -/
def updateState (env : MixingEnv) (pool : CObfuscationPool) (newState : PoolStatus) :
    CObfuscationPool :=
  if env.fMasterNode && (newState == .error || newState == .success) then pool
  else
    { pool with
      lastTimeChanged := if pool.state ≠ newState then env.timeMillis else pool.lastTimeChanged
      state := newState }

end CObfuscationPool

end Esbcoin
