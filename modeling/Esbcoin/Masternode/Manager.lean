import Esbcoin.Net.AddressText
import Esbcoin.SignedText
import Esbcoin.Validation.GetTransaction

/-!
# The masternode list

`CMasternodeMan` (`src/masternodeman.cpp`) with the broadcasts ('mnb') and pings ('mnp') that fill
and refresh its list (`src/masternode.cpp`). What a call reads of the clock, the chain and the locks
comes with it (`MasternodeEnv`). A node that is not synced ignores the messages. The ban scores
(`nDoS`), the logs, what is relayed or asked for and the node's own activation are left out.
-/

namespace Esbcoin

open KeyedList

/-- `CPubKey` (`pubkey.h:38-100`), by the bytes from `begin()` to `end()`: their number is that of
the header, and an invalid key has none. -/
structure CPubKey where
  bytes : List UInt8
  sized : bytes = [] ∨ isValidPubKey bytes = true
deriving DecidableEq

/-- `CPubKey()`. -/
def CPubKey.invalid : CPubKey := ⟨[], Or.inl rfl⟩

/-- A compressed key that ends in this byte. -/
def CPubKey.ending (byte : UInt8) : CPubKey := ⟨2 :: List.replicate 31 0 ++ [byte], Or.inr rfl⟩

/-- `CTxIn::ToString` (`primitives/transaction.cpp:21-24`, `:50-63`). -/
def CTxIn.toText (txin : CTxIn) : List Char :=
  "CTxIn(COutPoint(".toList ++ hexText 64 txin.prevout.hash.toNat ++ ", ".toList ++
    decimal txin.prevout.n.toNat ++ [')'] ++
    (if txin.prevout.isNull then
      ", coinbase ".toList ++ txin.scriptSig.flatMap fun byte => hexText 2 byte.toNat
    else ", scriptSig=".toList ++ txin.scriptSig.toText.take 24) ++
    (if txin.nSequence = 0xffffffff then []
    else ", nSequence=".toList ++ decimal txin.nSequence.toNat) ++ [')']

/-! ## Pings, broadcasts and masternodes -/

/-- `CMasternodePing` (`masternode.h:37-105`). -/
structure CMasternodePing where
  vin : CTxIn := { prevout := COutPoint.null }
  blockHash : UInt256 := 0
  sigTime : Int := 0
  vchSig : List UInt8 := []
deriving DecidableEq

namespace CMasternodePing

/-- `lastPing == CMasternodePing()`, which compares input and block (`masternode.h:96-99`). -/
def isDefault (ping : CMasternodePing) : Bool :=
  ping.vin == { prevout := COutPoint.null } && ping.blockHash == 0

/-- `strMessage` of a ping (`masternode.cpp:748`, `:794`). -/
def strMessage (ping : CMasternodePing) : List Char :=
  ping.vin.toText ++ hexText 64 ping.blockHash.toNat ++ decimal ping.sigTime

end CMasternodePing

/-- `CMasternodeBroadcast` (`masternode.h:293-349`); `CMasternode` has the same fields. -/
structure CMasternodeBroadcast where
  vin : CTxIn
  addr : CService
  pubKeyCollateralAddress : CPubKey
  pubKeyMasternode : CPubKey
  sig : List UInt8
  sigTime : Int
  protocolVersion : Int
  lastPing : CMasternodePing
deriving DecidableEq

/-- `strMessage` of a broadcast (`masternode.cpp:523-525`, `:705-710`): its keys as raw bytes. -/
def CMasternodeBroadcast.strMessage (host : NumericHost) (mnb : CMasternodeBroadcast) :
    List Char :=
  let chars := fun key : CPubKey => key.bytes.map fun byte => Char.ofNat byte.toNat
  mnb.addr.toText host ++ decimal mnb.sigTime ++ chars mnb.pubKeyCollateralAddress ++
    chars mnb.pubKeyMasternode ++ decimal mnb.protocolVersion

/-- `CMasternode::state` (`masternode.h:118-123`). -/
inductive MasternodeState where
  | enabled
  | expired
  | remove
  | vinSpent
deriving DecidableEq, Repr

/-- `CMasternode` (`masternode.h:106-142`) in the list, with its state and the time of its last
check. `unitTest` is false in every one. -/
structure ListedMasternode extends CMasternodeBroadcast where
  activeState : MasternodeState
  deposit : Int
  lastTimeChecked : Int
deriving DecidableEq

/-! ## What a call reads -/

/-- What all nodes agree on. -/
structure MasternodeNet where
  verifyMessage : VerifyMessage
  hash160 : List UInt8 → List UInt8
  host : NumericHost
  /-- `Params().GetDefaultPort()`. -/
  defaultPort : UInt16
  /-- `CMasternodeBroadcast::GetHash` (`masternode.h:333-339`) of time and collateral key. -/
  broadcastHash : Int → CPubKey → UInt256
  /-- `CMasternodePing::GetHash` (`masternode.h:69-75`) of input and time. -/
  pingHash : CTxIn → Int → UInt256

/-- What a call reads of the rest of the node. -/
structure MasternodeEnv where
  /-- `GetTime()`. -/
  time : Int
  /-- `GetAdjustedTime()`. -/
  adjustedTime : Int
  shutdownRequested : Bool
  /-- Does `TRY_LOCK(cs_main)` get the lock? -/
  lockMain : Bool
  source : TxSource
  mapBlockIndex : BlockMap
  chainActive : CChain
  /-- `AcceptableInputs` of the checking transaction that spends an input into a value. -/
  acceptableInputs : CTxIn → Int → Bool
  /-- `GetInputAge` (`main.cpp:869-886`). -/
  getInputAge : CTxIn → Int
  /-- The outpoint and the key of `activeMasternode`, if `fMasterNode`. -/
  activeMasternode : Option (COutPoint × CPubKey)

/-- `MASTERNODE_MIN_CONFIRMATIONS` (`masternode.h:18`). -/
def MASTERNODE_MIN_CONFIRMATIONS : Int := 15

/-- `MASTERNODE_MIN_MNP_SECONDS` (`masternode.h:19`). -/
def MASTERNODE_MIN_MNP_SECONDS : Int := 4 * 60

/-- `MASTERNODE_MIN_MNP_SECONDS2` (`masternode.h:20`). -/
def MASTERNODE_MIN_MNP_SECONDS2 : Int := 10 * 60

/-- `MASTERNODE_MIN_MNB_SECONDS` (`masternode.h:21`). -/
def MASTERNODE_MIN_MNB_SECONDS : Int := 5 * 60

/-- `MASTERNODE_EXPIRATION_SECONDS` (`masternode.h:24`). -/
def MASTERNODE_EXPIRATION_SECONDS : Int := 120 * 60

/-- `MASTERNODE_REMOVAL_SECONDS` (`masternode.h:25`). -/
def MASTERNODE_REMOVAL_SECONDS : Int := 130 * 60

/-- `MASTERNODE_CHECK_SECONDS` (`masternode.h:26`). -/
def MASTERNODE_CHECK_SECONDS : Int := 5

namespace MasternodeEnv

/-- `GetMinMasternodePaymentsProto` (`masternode-payments.cpp:126-129`). -/
def minProto (env : MasternodeEnv) : Int := activeProtocol env.chainActive.height

/-- `IsDepositCoins` of an input (`masternode.cpp:334-356`): its value, if that is a level's. -/
def isDepositCoins (env : MasternodeEnv) (vin : CTxIn) : Option Int :=
  (getTransaction env.source env.chainActive vin.prevout.hash true).bind fun (prevout_tx, _) =>
    prevout_tx.vout[vin.prevout.n.toNat]?.bind fun out =>
      if CMasternode.levelOf out.nValue env.chainActive.height = 0 then none else some out.nValue

/-- `IsVinAssociatedWithPubkey` (`obfuscation.cpp:2106-2126`): some output of the transaction, with
the value of a level, pays to the key. -/
def isVinAssociatedWithPubkey (net : MasternodeNet) (env : MasternodeEnv) (vin : CTxIn)
    (pubkey : CPubKey) : Bool :=
  let payee2 := getScriptForDestination (some (.keyID (net.hash160 pubkey.bytes)))
  match getTransaction env.source env.chainActive vin.prevout.hash true with
  | none => false
  | some (txVin, _) =>
    txVin.vout.any fun out =>
      CMasternode.levelOf out.nValue env.chainActive.height != 0 && out.scriptPubKey == payee2

/-- Is a block known and at most 24 blocks below the tip (`masternode.cpp:803-818`)? -/
def isRecent (env : MasternodeEnv) (blockHash : UInt256) : Bool :=
  match env.mapBlockIndex.lookup blockHash with
  | none => false
  | some pindex => !decide (pindex.nHeight < env.chainActive.height - 24)

/-- `AcceptableInputs` of `GetInputCheckingTx` (`masternodeman.cpp:200-219`) for a deposit: a
hundredth of a coin is left as fee. -/
def inputsAcceptable (env : MasternodeEnv) (vin : CTxIn) (deposit : Int) : Bool :=
  env.acceptableInputs vin (deposit - COIN / 100)

end MasternodeEnv

namespace ListedMasternode

/-- `CMasternode::IsEnabled` (`masternode.h:240-243`). -/
def isEnabled (mn : ListedMasternode) : Bool := mn.activeState == .enabled

/-- `CMasternode::IsBroadcastedWithin` (`masternode.h:222-225`). -/
def isBroadcastedWithin (env : MasternodeEnv) (mn : ListedMasternode) (seconds : Int) : Bool :=
  decide ((env.adjustedTime - mn.sigTime).bmod (2 ^ 64) < seconds)

/-- `CMasternode::IsPingedWithin` (`masternode.h:234-239`); -1 stands for the adjusted time. The
difference of 64 bits wraps for a time of the ping that nobody has checked. -/
def isPingedWithin (env : MasternodeEnv) (mn : ListedMasternode) (seconds now : Int) : Bool :=
  let now := if now = -1 then env.adjustedTime else now
  if mn.lastPing.isDefault then false
  else decide ((now - mn.lastPing.sigTime).bmod (2 ^ 64) < seconds)

/-- The state `CMasternode::Check` finds (`masternode.cpp:191-231`); without the lock the state
stays. -/
def checkedState (env : MasternodeEnv) (mn : ListedMasternode) : MasternodeState :=
  if mn.activeState = .vinSpent then .vinSpent
  else if !mn.isPingedWithin env MASTERNODE_REMOVAL_SECONDS (-1) then .remove
  else if !mn.isPingedWithin env MASTERNODE_EXPIRATION_SECONDS (-1) then .expired
  else
    match env.isDepositCoins mn.vin with
    | none => .vinSpent
    | some deposit =>
      if !env.lockMain then mn.activeState
      else if !env.inputsAcceptable mn.vin deposit then .vinSpent
      else .enabled

/-- `CMasternode::Check` (`masternode.cpp:181-233`). -/
def check (env : MasternodeEnv) (forceCheck : Bool) (mn : ListedMasternode) : ListedMasternode :=
  if env.shutdownRequested then mn
  else if !forceCheck && decide (env.time - mn.lastTimeChecked < MASTERNODE_CHECK_SECONDS) then mn
  else { mn with activeState := mn.checkedState env, lastTimeChecked := env.time }

/-- `CMasternode(const CMasternodeBroadcast&)` (`masternode.cpp:98-124`). -/
def ofBroadcast (env : MasternodeEnv) (mnb : CMasternodeBroadcast) : ListedMasternode :=
  match env.isDepositCoins mnb.vin with
  | some deposit => { mnb with activeState := .enabled, deposit, lastTimeChecked := 0 }
  | none => { mnb with activeState := .remove, deposit := 0, lastTimeChecked := 0 }

/-- The fields `UpdateFromNewBroadcast` takes over before it looks at the ping
(`masternode.cpp:131-140`). -/
def takeOver (mnb : CMasternodeBroadcast) (mn : ListedMasternode) : ListedMasternode :=
  { mn with
    pubKeyMasternode := mnb.pubKeyMasternode
    pubKeyCollateralAddress := mnb.pubKeyCollateralAddress
    sigTime := mnb.sigTime
    sig := mnb.sig
    protocolVersion := mnb.protocolVersion
    addr := mnb.addr
    lastTimeChecked := 0 }

end ListedMasternode

/-! ## The manager -/

/-- `CMasternodeMan` (`masternodeman.h:60-100`). -/
structure CMasternodeMan where
  vMasternodes : List ListedMasternode := []
  mapSeenMasternodeBroadcast : AssocMap UInt256 CMasternodeBroadcast := ∅
  mapSeenMasternodePing : AssocMap UInt256 CMasternodePing := ∅

/-- The collateral of a masternode. -/
abbrev ListedMasternode.outpoint (mn : ListedMasternode) : COutPoint := mn.vin.prevout

namespace CMasternodeMan

/-- `CMasternodeMan::Find` of an input (`masternodeman.cpp:580-589`). -/
def find (s : CMasternodeMan) (vin : CTxIn) : Option ListedMasternode :=
  KeyedList.find ListedMasternode.outpoint vin.prevout s.vMasternodes

/-- `CMasternodeMan::Find` of an address (`masternodeman.cpp:603-613`). -/
def findAddr (s : CMasternodeMan) (service : CService) : Option ListedMasternode :=
  KeyedList.find (fun mn : ListedMasternode => mn.addr) service s.vMasternodes

/-- A change through the pointer that `Find` of an input returns. -/
def change (s : CMasternodeMan) (vin : CTxIn) (update : ListedMasternode → ListedMasternode) :
    CMasternodeMan :=
  { s with
    vMasternodes := KeyedList.change ListedMasternode.outpoint vin.prevout update s.vMasternodes }

/-- `CMasternodeMan::Add` (`masternodeman.cpp:221-234`). -/
def add (s : CMasternodeMan) (mn : ListedMasternode) : CMasternodeMan :=
  if !mn.isEnabled then s
  else if (s.find mn.vin).isSome then s
  else { s with vMasternodes := s.vMasternodes ++ [mn] }

/-- `CMasternodeMan::Remove` (`masternodeman.cpp:1085-1098`). -/
def remove (s : CMasternodeMan) (vin : CTxIn) : CMasternodeMan :=
  { s with
    vMasternodes := KeyedList.remove (fun mn : ListedMasternode => mn.vin) vin s.vMasternodes }

/-- `CMasternodeMan::Check` (`masternodeman.cpp:258-265`). -/
def checkAll (env : MasternodeEnv) (s : CMasternodeMan) : CMasternodeMan :=
  { s with vMasternodes := s.vMasternodes.map (ListedMasternode.check env false) }

/-- Does `CheckAndRemove` take a masternode out (`masternodeman.cpp:276-279`)? -/
def isOut (env : MasternodeEnv) (forceExpiredRemoval : Bool) (mn : ListedMasternode) : Bool :=
  mn.activeState == .remove || mn.activeState == .vinSpent ||
    (forceExpiredRemoval && mn.activeState == .expired) ||
    decide (mn.protocolVersion < env.minProto)

/-- `CMasternodeMan::CheckAndRemove` (`masternodeman.cpp:267-381`). -/
def checkAndRemove (env : MasternodeEnv) (forceExpiredRemoval : Bool) (s : CMasternodeMan) :
    CMasternodeMan :=
  let s := s.checkAll env
  let out := s.vMasternodes.filter (isOut env forceExpiredRemoval)
  let oldest := env.time - MASTERNODE_REMOVAL_SECONDS * 2
  { vMasternodes := s.vMasternodes.filter fun mn => !isOut env forceExpiredRemoval mn
    mapSeenMasternodeBroadcast := s.mapSeenMasternodeBroadcast.retain fun _ mnb =>
      !(out.any fun mn => mnb.vin == mn.vin) && !decide (mnb.lastPing.sigTime < oldest)
    mapSeenMasternodePing := s.mapSeenMasternodePing.retain fun _ ping =>
      !decide (ping.sigTime < oldest) }

end CMasternodeMan

/-! ## Pings -/

/-- How long ago the last ping has to be (`masternode.cpp:793`). -/
def minPingSeconds (env : MasternodeEnv) : Int :=
  if activeProtocol env.chainActive.height ≥ CONSENSUS_FORK_PROTO then
    MASTERNODE_MIN_MNP_SECONDS2 - 60
  else MASTERNODE_MIN_MNP_SECONDS - 60

namespace CMasternodePing

/-- The time of a ping is within an hour (`masternode.cpp:765-775`). -/
def isTimely (env : MasternodeEnv) (ping : CMasternodePing) : Bool :=
  !decide (ping.sigTime > env.adjustedTime + 60 * 60) &&
    !decide (ping.sigTime ≤ env.adjustedTime - 60 * 60)

/-- The checks of a ping against its masternode (`masternode.cpp:787-818`). -/
def passesFor (net : MasternodeNet) (env : MasternodeEnv) (fRequireEnabled : Bool)
    (ping : CMasternodePing) (pmn : ListedMasternode) : Bool :=
  decide (pmn.protocolVersion ≥ env.minProto) && !(fRequireEnabled && !pmn.isEnabled) &&
    !pmn.isPingedWithin env (minPingSeconds env) ping.sigTime &&
    net.verifyMessage pmn.pubKeyMasternode.bytes ping.vchSig ping.strMessage &&
    env.isRecent ping.blockHash

/-- What an accepted ping changes (`masternode.cpp:820-837`). `UpdateFromNewBroadcast` of spork 7
is given the masternode's own broadcast and returns at once. -/
def update (net : MasternodeNet) (env : MasternodeEnv) (s : CMasternodeMan) (ping : CMasternodePing)
    (pmn : ListedMasternode) : CMasternodeMan :=
  let s := s.change ping.vin fun mn => { mn with lastPing := ping }
  let hash := net.broadcastHash pmn.sigTime pmn.pubKeyCollateralAddress
  let s := { s with
    mapSeenMasternodeBroadcast := s.mapSeenMasternodeBroadcast.modify hash fun mnb =>
      { mnb with lastPing := ping } }
  s.change ping.vin (ListedMasternode.check env true)

/-- `CMasternodePing::CheckAndUpdate` (`masternode.cpp:763-851`). -/
def checkAndUpdate (net : MasternodeNet) (env : MasternodeEnv) (s : CMasternodeMan)
    (ping : CMasternodePing) (fRequireEnabled : Bool) : CMasternodeMan × Bool :=
  if !ping.isTimely env then (s, false)
  else
    match s.find ping.vin with
    | none => (s, false)
    | some pmn =>
      if !ping.passesFor net env fRequireEnabled pmn then (s, false)
      else
        let s := ping.update net env s pmn
        (s, (s.find ping.vin).any ListedMasternode.isEnabled)

end CMasternodePing

/-! ## Broadcasts -/

/-- The part of `UpdateFromNewBroadcast` that looks at the ping of the broadcast
(`masternode.cpp:142-145`). -/
def takeLastPing (net : MasternodeNet) (env : MasternodeEnv) (s : CMasternodeMan)
    (mnb : CMasternodeBroadcast) : CMasternodeMan :=
  let (s, fresh) := if mnb.lastPing.isDefault then (s, true)
    else mnb.lastPing.checkAndUpdate net env s false
  if fresh then
    let s := s.change mnb.vin fun mn => { mn with lastPing := mnb.lastPing }
    { s with
      mapSeenMasternodePing := s.mapSeenMasternodePing.insertNew
        (net.pingHash mnb.lastPing.vin mnb.lastPing.sigTime) mnb.lastPing }
  else s

/-- `CMasternode::UpdateFromNewBroadcast` (`masternode.cpp:129-148`) of the masternode `pmn` that
`Find` of the broadcast's input returns. -/
def updateFromNewBroadcast (net : MasternodeNet) (env : MasternodeEnv) (s : CMasternodeMan)
    (mnb : CMasternodeBroadcast) (pmn : ListedMasternode) : CMasternodeMan × Bool :=
  if mnb.sigTime ≤ pmn.sigTime then (s, false)
  else (takeLastPing net env (s.change mnb.vin (ListedMasternode.takeOver mnb)) mnb, true)

namespace CMasternodeBroadcast

/-- `GetHash` (`masternode.h:333-339`). -/
def getHash (net : MasternodeNet) (mnb : CMasternodeBroadcast) : UInt256 :=
  net.broadcastHash mnb.sigTime mnb.pubKeyCollateralAddress

/-- The size of the script that pays to a key (`masternode.cpp:532-548`). -/
def payeeSize (net : MasternodeNet) (key : CPubKey) : Nat :=
  (getScriptForDestination (some (.keyID (net.hash160 key.bytes)))).length

/-- The checks of `CheckAndUpdate` before it looks into the list (`masternode.cpp:516-564`). -/
def fieldsPass (net : MasternodeNet) (env : MasternodeEnv) (mnb : CMasternodeBroadcast) : Bool :=
  !decide (mnb.sigTime > env.adjustedTime + 60 * 60) &&
    !decide (mnb.protocolVersion < env.minProto) &&
    payeeSize net mnb.pubKeyCollateralAddress == 25 && payeeSize net mnb.pubKeyMasternode == 25 &&
    mnb.vin.scriptSig.isEmpty &&
    net.verifyMessage mnb.pubKeyCollateralAddress.bytes mnb.sig (mnb.strMessage net.host) &&
    mnb.addr.port == net.defaultPort

/-- Is the listed masternode to be updated (`masternode.cpp:585`)? -/
def updates (env : MasternodeEnv) (mnb : CMasternodeBroadcast) (pmn : ListedMasternode) : Bool :=
  pmn.pubKeyCollateralAddress == mnb.pubKeyCollateralAddress &&
    !pmn.isBroadcastedWithin env MASTERNODE_MIN_MNB_SECONDS

/-- `CMasternodeBroadcast::CheckAndUpdate` (`masternode.cpp:514-596`). -/
def checkAndUpdate (net : MasternodeNet) (env : MasternodeEnv) (s : CMasternodeMan)
    (mnb : CMasternodeBroadcast) : CMasternodeMan × Bool :=
  if !mnb.fieldsPass net env then (s, false)
  else
    match s.find mnb.vin with
    | none => (s, true)
    | some pmn =>
      if pmn.sigTime > mnb.sigTime then (s, false)
      else if !pmn.isEnabled then (s, true)
      else if mnb.updates env pmn then
        match updateFromNewBroadcast net env s mnb pmn with
        | (s, true) => (s.change mnb.vin (ListedMasternode.check env false), true)
        | (s, false) => (s, true)
      else (s, true)

/-- What the checks of a collateral come to. -/
inductive InputsVerdict where
  /-- It may be good later: the broadcast is forgotten. -/
  | later
  | refused
  | good
deriving DecidableEq

/-- The time of the block that gave the collateral its last needed confirmation
(`masternode.cpp:659-666`), if its block is known and that one is in the chain. -/
def confirmedAt (env : MasternodeEnv) (mnb : CMasternodeBroadcast) : Option Int :=
  (getTransaction env.source env.chainActive mnb.vin.prevout.hash true).bind fun (_, hashBlock) =>
    (env.mapBlockIndex.lookup hashBlock).bind fun pMNIndex =>
      (env.mapBlockIndex.deref (env.chainActive.atHeight
        (pMNIndex.nHeight + MASTERNODE_MIN_CONFIRMATIONS - 1))).map CBlockIndex.getBlockTime

/-- The checks of `CheckInputsAndAdd` (`masternode.cpp:624-672`). -/
def checkInputs (env : MasternodeEnv) (mnb : CMasternodeBroadcast) : InputsVerdict :=
  if !env.lockMain then .later
  else
    match env.isDepositCoins mnb.vin with
    | none => .refused
    | some deposit =>
      if !env.inputsAcceptable mnb.vin deposit then .refused
      else if env.getInputAge mnb.vin < MASTERNODE_MIN_CONFIRMATIONS then .later
      else if (mnb.confirmedAt env).any fun time => decide (time > mnb.sigTime) then .refused
      else .good

/-- The rest of `CheckInputsAndAdd`, behind the look into the list (`masternode.cpp:624-692`). -/
def addChecked (net : MasternodeNet) (env : MasternodeEnv) (s : CMasternodeMan)
    (mnb : CMasternodeBroadcast) : CMasternodeMan × Bool :=
  match mnb.checkInputs env with
  | .later =>
    ({ s with
        mapSeenMasternodeBroadcast := s.mapSeenMasternodeBroadcast.erase (mnb.getHash net) }, false)
  | .refused => (s, false)
  | .good => (s.add (ListedMasternode.ofBroadcast env mnb), true)

/-- `CMasternodeBroadcast::CheckInputsAndAdd` (`masternode.cpp:598-693`). -/
def checkInputsAndAdd (net : MasternodeNet) (env : MasternodeEnv) (s : CMasternodeMan)
    (mnb : CMasternodeBroadcast) : CMasternodeMan × Bool :=
  if env.activeMasternode = some (mnb.vin.prevout, mnb.pubKeyMasternode) then (s, true)
  else
    match s.find mnb.vin with
    | some pmn => if pmn.isEnabled then (s, true) else mnb.addChecked net env (s.remove pmn.vin)
    | none => mnb.addChecked net env s

/-- `CheckInputsAndAdd` stops at the own masternode and at an enabled one, and goes on without the
disabled one that it finds. -/
theorem checkInputsAndAdd_cases (net : MasternodeNet) (env : MasternodeEnv) (s : CMasternodeMan)
    (mnb : CMasternodeBroadcast) :
    ((env.activeMasternode = some (mnb.vin.prevout, mnb.pubKeyMasternode) ∨
      ∃ pmn, s.find mnb.vin = some pmn ∧ pmn.isEnabled = true) ∧
        mnb.checkInputsAndAdd net env s = (s, true)) ∨
    env.activeMasternode ≠ some (mnb.vin.prevout, mnb.pubKeyMasternode) ∧
      (s.find mnb.vin = none ∧ mnb.checkInputsAndAdd net env s = mnb.addChecked net env s ∨
      ∃ pmn, s.find mnb.vin = some pmn ∧ pmn.isEnabled = false ∧
        mnb.checkInputsAndAdd net env s = mnb.addChecked net env (s.remove pmn.vin)) := by
  unfold checkInputsAndAdd
  by_cases own : env.activeMasternode = some (mnb.vin.prevout, mnb.pubKeyMasternode)
  · rw [if_pos own]
    exact Or.inl ⟨Or.inl own, rfl⟩
  rw [if_neg own]
  cases found : s.find mnb.vin with
  | none => exact Or.inr ⟨own, Or.inl ⟨rfl, rfl⟩⟩
  | some pmn =>
    cases enabled : pmn.isEnabled with
    | true => exact Or.inl ⟨Or.inr ⟨pmn, rfl, enabled⟩, by simp only [enabled, if_true]⟩
    | false =>
      refine Or.inr ⟨own, Or.inr ⟨pmn, rfl, enabled, ?_⟩⟩
      simp only [enabled, Bool.false_eq_true, if_false]

end CMasternodeBroadcast

/-! ## Messages -/

/-- What becomes of a message. -/
inductive MessageVerdict where
  | seen
  | rejected
  | accepted
deriving DecidableEq

namespace CMasternodeMan

/-- The look for another masternode with the address (`masternodeman.cpp:921-933`): is there an
enabled one? -/
def checkAddress (env : MasternodeEnv) (s : CMasternodeMan) (mnb : CMasternodeBroadcast) :
    CMasternodeMan × Bool :=
  match s.findAddr mnb.addr with
  | none => (s, false)
  | some pmn =>
    if pmn.vin = mnb.vin then (s, false)
    else
      ({ s with
          vMasternodes := KeyedList.change (fun mn : ListedMasternode => mn.addr) mnb.addr
            (ListedMasternode.check env true) s.vMasternodes },
        (pmn.check env true).isEnabled)

/-- 'mnb' behind the seen map (`masternodeman.cpp:942-971`). -/
def handleBroadcast (net : MasternodeNet) (env : MasternodeEnv) (s : CMasternodeMan)
    (mnb : CMasternodeBroadcast) : CMasternodeMan × Bool :=
  match mnb.checkAndUpdate net env s with
  | (s, false) => (s, false)
  | (s, true) =>
    if !env.isVinAssociatedWithPubkey net mnb.vin mnb.pubKeyCollateralAddress then (s, false)
    else mnb.checkInputsAndAdd net env s

/-- `CMasternodeMan::ProcessMessage` of 'mnb' (`masternodeman.cpp:917-972`). -/
def processBroadcast (net : MasternodeNet) (env : MasternodeEnv) (s : CMasternodeMan)
    (mnb : CMasternodeBroadcast) : CMasternodeMan × MessageVerdict :=
  match s.checkAddress env mnb with
  | (s, true) => (s, .rejected)
  | (s, false) =>
    if s.mapSeenMasternodeBroadcast.contains (mnb.getHash net) then (s, .seen)
    else
      let s := { s with
        mapSeenMasternodeBroadcast := s.mapSeenMasternodeBroadcast.insert (mnb.getHash net) mnb }
      let (s, added) := s.handleBroadcast net env mnb
      (s, if added then .accepted else .rejected)

/-- `CMasternodeMan::ProcessMessage` of 'mnp' (`masternodeman.cpp:974-1002`). -/
def processPing (net : MasternodeNet) (env : MasternodeEnv) (s : CMasternodeMan)
    (mnp : CMasternodePing) : CMasternodeMan × MessageVerdict :=
  let hash := net.pingHash mnp.vin mnp.sigTime
  if s.mapSeenMasternodePing.contains hash then (s, .seen)
  else
    let s := { s with mapSeenMasternodePing := s.mapSeenMasternodePing.insert hash mnp }
    let (s, accepted) := mnp.checkAndUpdate net env s true
    (s, if accepted then .accepted else .rejected)

end CMasternodeMan

end Esbcoin
