import Esbcoin.Chain.Params
import Esbcoin.Lib.AssocMap
import Esbcoin.Net.NetGroup

/-!
# The stages of the masternode sync

`CMasternodeSync` (`src/masternode-sync.h`, `src/masternode-sync.cpp`) with the request marks of the
peers (`CNode::vecRequestsFulfilled`, `src/net.h:590-614`) and the two functions of
`CMasternodeMan` that send the requests of the list and winner stages
(`src/masternodeman.cpp:514-565`). `BuildTxFilter`, `ManageStatus` and the logs are left out.
-/

namespace Esbcoin

/-- The requests a peer can be marked with. -/
inductive PeerRequest where
  | getspork
  | mnsync
  | mnwsync
  | getgm
  /-- The peer's own question for the winners (`masternode-payments.cpp:144-151`). -/
  | mnget
deriving DecidableEq, Repr

/-- `RequestedMasternodeAssets` (`masternode-sync.h:9-15`). -/
inductive SyncStage where
  | initial
  | sporks
  | list
  | mnw
  | gm
  | failed
  | finished
deriving DecidableEq, Repr

/-- The number of a stage. -/
def SyncStage.toNat : SyncStage → Nat
  | initial => 0
  | sporks => 1
  | list => 2
  | mnw => 3
  | gm => 4
  | failed => 998
  | finished => 999

/-- `MASTERNODE_SYNC_TIMEOUT` (`masternode-sync.h:17`). -/
def MASTERNODE_SYNC_TIMEOUT : Nat := 5

/-- `MASTERNODE_SYNC_THRESHOLD` (`masternode-sync.h:18`). -/
def MASTERNODE_SYNC_THRESHOLD : Nat := 2

/-- `MASTERNODES_DSEG_SECONDS` (`masternodeman.h:17`). -/
def MASTERNODES_DSEG_SECONDS : Int := 1 * 60 * 60

/-- `MASTERNODES_MNGET_SECONDS` (`masternodeman.h:18`). -/
def MASTERNODES_MNGET_SECONDS : Int := 1 * 1 * 60

/-! ## Peers -/

/-- What the sync reads of a `CNode`. `FulfilledRequest` is the only function that adds a mark. -/
structure SyncPeer where
  id : Nat
  addr : CNetAddr
  nVersion : Int
  vecRequestsFulfilled : List PeerRequest
  distinct : vecRequestsFulfilled.Nodup
deriving DecidableEq

namespace SyncPeer

/-- `CNode::HasFulfilledRequest` (`net.h:590-596`). -/
def hasFulfilledRequest (pnode : SyncPeer) (strRequest : PeerRequest) : Bool :=
  pnode.vecRequestsFulfilled.any fun type => type == strRequest

/-- `CNode::ClearFulfilledRequest` (`net.h:598-608`): the first mark with this name. -/
def clearFulfilledRequest (pnode : SyncPeer) (strRequest : PeerRequest) : SyncPeer :=
  { pnode with
    vecRequestsFulfilled := pnode.vecRequestsFulfilled.erase strRequest
    distinct := pnode.distinct.erase strRequest }

/-- `CNode::FulfilledRequest` (`net.h:610-614`). -/
def fulfilledRequest (pnode : SyncPeer) (strRequest : PeerRequest) : SyncPeer :=
  if absent : pnode.hasFulfilledRequest strRequest = true then pnode
  else
    { pnode with
      vecRequestsFulfilled := pnode.vecRequestsFulfilled ++ [strRequest]
      distinct := by
        rw [hasFulfilledRequest, List.any_eq_true] at absent
        refine List.nodup_append.mpr ⟨pnode.distinct, List.nodup_singleton _, ?_⟩
        rintro type member _ last rfl
        rw [List.mem_singleton] at last
        exact absent ⟨type, member, beq_iff_eq.mpr last⟩ }

end SyncPeer

/-! ## The node -/

/-- `CMasternodeSync` (`masternode-sync.h:31-56`). -/
structure CMasternodeSync where
  mapSeenSyncMNB : AssocMap UInt256 Nat := ∅
  mapSeenSyncMNW : AssocMap UInt256 Nat := ∅
  lastMasternodeList : Int := 0
  lastMasternodeWinner : Int := 0
  lastFailure : Int := 0
  nCountFailures : Nat := 0
  sumMasternodeList : Int := 0
  sumMasternodeWinner : Int := 0
  countMasternodeList : Nat := 0
  countMasternodeWinner : Nat := 0
  RequestedMasternodeAssets : SyncStage := .initial
  RequestedMasternodeAttempt : Nat := 0
  nAssetSyncStarted : Int := 0

/-- What a call reads of the rest of the node. -/
structure SyncCall where
  /-- `GetTime()`. -/
  time : Int
  /-- `IsSporkActive(SPORK_4_MASTERNODE_PAYMENT_ENFORCEMENT)`. -/
  paymentEnforcement : Bool
  /-- `mnodeman.CountEnabled()`. -/
  countEnabled : Nat
  /-- `masternodePayments.GetMinMasternodePaymentsProto()`. -/
  minProto : Int
  /-- `fImporting || fReindex`. -/
  importing : Bool
  /-- Does `TRY_LOCK(cs_main)` of `IsBlockchainSynced` get the lock? -/
  lockMain : Bool
  /-- `chainActive.Tip()->nTime`, if there is a tip. -/
  tipTime : Option Int
  /-- Does `TRY_LOCK(cs_vNodes)` of `ClearFulfilledRequest` get the lock? -/
  lockClear : Bool
  /-- Does `TRY_LOCK(cs_vNodes)` of `Process` get the lock? -/
  lockNodes : Bool

/-- The sync with the peers, the notes of `CMasternodeMan` and the static variables. -/
structure SyncNode where
  masternodeSync : CMasternodeSync := {}
  /-- `tick` (`masternode-sync.cpp:228`). -/
  tick : Nat := 0
  /-- `fBlockchainSynced` (`masternode-sync.cpp:33`). -/
  fBlockchainSynced : Bool := false
  /-- `lastProcess` (`masternode-sync.cpp:34`), which the first call sets. -/
  lastProcess : Option Int := none
  mWeAskedForMasternodeList : AssocMap CNetAddr Int := ∅
  mWeAskedForWinnerMasternodeList : AssocMap CNetAddr Int := ∅
  vNodes : List SyncPeer := []
  nLastNodeId : Nat := 0
  /-- History: the marks that were set since the sync last left its initial stage. -/
  marked : List (Nat × PeerRequest) := []
  /-- History: the requests that were sent since then. -/
  asked : List (Nat × PeerRequest) := []

namespace SyncNode

/-- The stage of the sync. -/
abbrev stage (s : SyncNode) : SyncStage := s.masternodeSync.RequestedMasternodeAssets

/-- The attempt within the stage. -/
abbrev attempt (s : SyncNode) : Nat := s.masternodeSync.RequestedMasternodeAttempt

/-- `CMasternodeSync::Reset` (`masternode-sync.cpp:63-78`). -/
def reset (time : Int) (s : SyncNode) : SyncNode :=
  { s with masternodeSync := { nAssetSyncStarted := time } }

/-- `CMasternodeSync::ClearFulfilledRequest` (`masternode-sync.cpp:214-224`). -/
def clearFulfilledRequest (c : SyncCall) (s : SyncNode) : SyncNode :=
  if !c.lockClear then s
  else
    { s with
      vNodes := s.vNodes.map fun pnode =>
        let pnode := pnode.clearFulfilledRequest .getspork
        let pnode := pnode.clearFulfilledRequest .mnsync
        pnode.clearFulfilledRequest .mnwsync }

/-- The stage is set (`masternode-sync.cpp:141-163`). -/
def enter (time : Int) (stage : SyncStage) (s : SyncNode) : SyncNode :=
  { s with
    masternodeSync := { s.masternodeSync with
      RequestedMasternodeAssets := stage
      RequestedMasternodeAttempt := 0
      nAssetSyncStarted := time } }

/-- `CMasternodeSync::GetNextAsset` (`masternode-sync.cpp:139-164`). With the first stage the
history begins anew. -/
def getNextAsset (c : SyncCall) (s : SyncNode) : SyncNode :=
  match s.stage with
  | .initial | .failed =>
    { (s.clearFulfilledRequest c).enter c.time .sporks with marked := [], asked := [] }
  | .sporks => s.enter c.time .list
  | .list => s.enter c.time .mnw
  | .mnw => s.enter c.time .gm
  | .gm => s.enter c.time .finished
  | .finished => s.enter c.time .finished

/-- Was the last call of `IsBlockchainSynced` more than an hour ago (`masternode-sync.cpp:37`)? -/
def hasSlept (c : SyncCall) (s : SyncNode) : Bool :=
  match s.lastProcess with
  | none => false
  | some lastProcess => decide (c.time - lastProcess > 60 * 60)

/-- `CMasternodeSync::IsBlockchainSynced` (`masternode-sync.cpp:31-61`). -/
def isBlockchainSynced (c : SyncCall) (s : SyncNode) : SyncNode × Bool :=
  let s := if s.hasSlept c then { s.reset c.time with fBlockchainSynced := false } else s
  let s := { s with lastProcess := some c.time }
  if s.fBlockchainSynced then (s, true)
  else if c.importing then (s, false)
  else if !c.lockMain then (s, false)
  else
    match c.tipTime with
    | none => (s, false)
    | some nTime =>
      if nTime + 60 * 60 < c.time then (s, false) else ({ s with fBlockchainSynced := true }, true)

/-! ## Requests -/

/-- Is a request held back because the peer was asked lately (`masternodeman.cpp:518-528`,
`:540-550`)? -/
def heldBack (network : Network) (time : Int) (notes : AssocMap CNetAddr Int) (addr : CNetAddr) :
    Bool :=
  network == .main && !(addr.isRFC1918 || addr.isLocal) &&
    (notes.lookup addr).any fun askAgain => decide (time < askAgain)

/-- Sends a request to a peer. -/
def pushMessage (pnode : SyncPeer) (request : PeerRequest) (s : SyncNode) : SyncNode :=
  { s with asked := (pnode.id, request) :: s.asked }

/-- `CMasternodeMan::DsegUpdate` (`masternodeman.cpp:514-534`). -/
def dsegUpdate (network : Network) (c : SyncCall) (pnode : SyncPeer) (s : SyncNode) :
    SyncNode × Bool :=
  if heldBack network c.time s.mWeAskedForMasternodeList pnode.addr then (s, false)
  else
    ({ s.pushMessage pnode .mnsync with
      mWeAskedForMasternodeList :=
        s.mWeAskedForMasternodeList.insert pnode.addr (c.time + MASTERNODES_DSEG_SECONDS) }, true)

/-- `CMasternodeMan::WinnersUpdate` (`masternodeman.cpp:536-565`). -/
def winnersUpdate (network : Network) (c : SyncCall) (pnode : SyncPeer) (s : SyncNode) :
    SyncNode × Bool :=
  if heldBack network c.time s.mWeAskedForWinnerMasternodeList pnode.addr then (s, false)
  else
    ({ s.pushMessage pnode .mnwsync with
      mWeAskedForWinnerMasternodeList :=
        s.mWeAskedForWinnerMasternodeList.insert pnode.addr (c.time + MASTERNODES_MNGET_SECONDS) },
      true)

/-! ## Process -/

/-- Counts an attempt. -/
def countAttempt (s : SyncNode) : SyncNode :=
  { s with
    masternodeSync := { s.masternodeSync with
      RequestedMasternodeAttempt := s.attempt + 1 } }

/-- The history of a mark that is set. -/
def mark (pnode : SyncPeer) (request : PeerRequest) (s : SyncNode) : SyncNode :=
  { s with marked := (pnode.id, request) :: s.marked }

/-- A turn of the loop on the regression test network (`masternode-sync.cpp:270-281`). -/
def visitRegtest (c : SyncCall) (pnode : SyncPeer) (s : SyncNode) : SyncNode :=
  if s.attempt ≤ 2 then (s.pushMessage pnode .getspork).countAttempt
  else if s.attempt < 4 then ((s.dsegUpdate .regtest c pnode).1).countAttempt
  else if s.attempt < 6 then (s.pushMessage pnode .mnwsync).countAttempt
  else
    SyncNode.countAttempt
      { s with masternodeSync := { s.masternodeSync with RequestedMasternodeAssets := .finished } }

/-- A turn of the loop in the spork and the global-message stage (`masternode-sync.cpp:285-299`,
`:303-312`): the node, the peer, and whether the loop goes on. -/
def visitOnce (request : PeerRequest) (c : SyncCall) (pnode : SyncPeer) (s : SyncNode) :
    SyncNode × SyncPeer × Bool :=
  if pnode.hasFulfilledRequest request then (s, pnode, true)
  else if s.attempt ≥ MASTERNODE_SYNC_THRESHOLD then (s.getNextAsset c, pnode, false)
  else
    (((s.mark pnode request).pushMessage pnode request).countAttempt,
      pnode.fulfilledRequest request, false)

/-- Did nothing come for too long (`masternode-sync.cpp:331-332`, `:373-374`)? -/
def isTimedOut (c : SyncCall) (last : Int) (s : SyncNode) : Bool :=
  last == 0 && (decide (s.attempt ≥ MASTERNODE_SYNC_THRESHOLD * 3) ||
    decide (c.time - s.masternodeSync.nAssetSyncStarted > MASTERNODE_SYNC_TIMEOUT * 5))

/-- The sync has failed (`masternode-sync.cpp:335-338`, `:377-380`). -/
def fail (c : SyncCall) (s : SyncNode) : SyncNode :=
  { s with
    masternodeSync := { s.masternodeSync with
      RequestedMasternodeAssets := .failed
      RequestedMasternodeAttempt := 0
      lastFailure := c.time
      nCountFailures := s.masternodeSync.nCountFailures + 1 } }

/-- A turn of the loop in the list and the winner stage (`masternode-sync.cpp:318-353`, `:358-396`).
-/
def visitUpdate (request : PeerRequest) (last : Int) (isDone isReady : Bool)
    (update : SyncNode → SyncNode × Bool) (c : SyncCall) (pnode : SyncPeer) (s : SyncNode) :
    SyncNode × SyncPeer × Bool :=
  if isDone then (s.getNextAsset c, pnode, false)
  else if pnode.hasFulfilledRequest request then (s, pnode, true)
  else
    let s := s.mark pnode request
    let marked := pnode.fulfilledRequest request
    if s.isTimedOut c last then
      (if c.paymentEnforcement && decide (c.countEnabled > 6) then s.fail c else s.getNextAsset c,
        marked, false)
    else if s.attempt ≥ MASTERNODE_SYNC_THRESHOLD * 3 then (s, marked, false)
    else if !isReady then (s, marked, false)
    else
      match update s with
      | (s, false) => (s, marked, true)
      | (s, true) => (s.countAttempt, marked, false)

/-- A turn of the loop in the list stage (`masternode-sync.cpp:316-354`). -/
def visitList (network : Network) (c : SyncCall) (pnode : SyncPeer) (s : SyncNode) :
    SyncNode × SyncPeer × Bool :=
  let last := s.masternodeSync.lastMasternodeList
  let isDone := decide (last > 0) && decide (last < c.time - MASTERNODE_SYNC_TIMEOUT) &&
    decide (s.attempt ≥ MASTERNODE_SYNC_THRESHOLD)
  visitUpdate .mnsync last isDone true (dsegUpdate network c pnode) c pnode s

/-- A turn of the loop in the winner stage (`masternode-sync.cpp:356-397`). -/
def visitWinners (network : Network) (c : SyncCall) (pnode : SyncPeer) (s : SyncNode) :
    SyncNode × SyncPeer × Bool :=
  let last := s.masternodeSync.lastMasternodeWinner
  let isDone := (decide (last > 0) ||
      decide (s.masternodeSync.countMasternodeWinner ≥ MASTERNODE_SYNC_THRESHOLD)) &&
    decide (s.attempt ≥ MASTERNODE_SYNC_THRESHOLD)
  visitUpdate .mnwsync last isDone c.tipTime.isSome (winnersUpdate network c pnode) c pnode s

/-- A turn of the loop (`masternode-sync.cpp:269-398`). -/
def visit (network : Network) (c : SyncCall) (pnode : SyncPeer) (s : SyncNode) :
    SyncNode × SyncPeer × Bool :=
  if network = .regtest then (s.visitRegtest c pnode, pnode, false)
  else
    match s.stage with
    | .sporks => s.visitOnce .getspork c pnode
    | .gm => s.visitOnce .getgm c pnode
    | .list =>
      if pnode.nVersion ≥ c.minProto then s.visitList network c pnode else (s, pnode, true)
    | .mnw =>
      if pnode.nVersion ≥ c.minProto then s.visitWinners network c pnode else (s, pnode, true)
    | .initial | .failed | .finished => (s, pnode, true)

/-- The loop over the peers behind `done` (`masternode-sync.cpp:269-399`). -/
def visitAll (network : Network) (c : SyncCall) :
    List SyncPeer → List SyncPeer → SyncNode → SyncNode
  | _, [], s => s
  | done, pnode :: rest, s =>
    match s.visit network c pnode with
    | (s, pnode, goesOn) =>
      let s := { s with vNodes := done ++ pnode :: rest }
      if goesOn then visitAll network c (done ++ [pnode]) rest s else s

/-- The loop over all peers (`masternode-sync.cpp:266-399`). -/
def askPeers (network : Network) (c : SyncCall) (s : SyncNode) : SyncNode :=
  if !c.lockNodes then s else s.visitAll network c [] s.vNodes

/-- Does `Process` go on with this stage (`masternode-sync.cpp:232-249`)? It may begin again. -/
def wake (c : SyncCall) (s : SyncNode) : Option SyncNode :=
  match s.stage with
  | .finished =>
    if c.paymentEnforcement && c.countEnabled == 0 then some (s.reset c.time) else none
  | .failed =>
    if s.masternodeSync.lastFailure + 1 * 10 < c.time then some (s.reset c.time) else none
  | .initial | .sporks | .list | .mnw | .gm => some s

/-- `Process` leaves the initial stage (`masternode-sync.cpp:251-252`). -/
def begin (c : SyncCall) (s : SyncNode) : SyncNode :=
  if s.stage = .initial then s.getNextAsset c else s

/-- The rest of `Process` (`masternode-sync.cpp:254-399`). -/
def proceed (network : Network) (c : SyncCall) (s : SyncNode) : SyncNode :=
  if network = .regtest then s.askPeers network c
  else
    match s.isBlockchainSynced c with
    | (s, synced) =>
      if !synced && decide (s.stage.toNat > SyncStage.sporks.toNat) then
        { s with masternodeSync := { s.masternodeSync with nAssetSyncStarted := c.time } }
      else s.askPeers network c

/-- `CMasternodeSync::Process` (`masternode-sync.cpp:226-400`). -/
def process (network : Network) (c : SyncCall) (s : SyncNode) : SyncNode :=
  let due := s.tick % MASTERNODE_SYNC_TIMEOUT == 0
  let s := { s with tick := s.tick + 1 }
  if !due then s
  else
    match s.wake c with
    | none => s
    | some s => (s.begin c).proceed network c

/-! ## What else happens -/

/-- A hash is counted up to the threshold (`masternode-sync.cpp:82-91`, `:108-117`); `none` where it
was there before. -/
def countSeen (hash : UInt256) (seen : AssocMap UInt256 Nat) : Option (AssocMap UInt256 Nat) :=
  match seen.lookup hash with
  | none => some (seen.insert hash 1)
  | some n => if n ≥ MASTERNODE_SYNC_THRESHOLD then none else some (seen.insert hash (n + 1))

/-- `CMasternodeSync::AddedMasternodeList` (`masternode-sync.cpp:80-104`). -/
def addedMasternodeList (time : Int) (hash : UInt256) (s : SyncNode) : SyncNode :=
  match countSeen hash s.masternodeSync.mapSeenSyncMNB with
  | none => s
  | some mapSeenSyncMNB =>
    { s with
      masternodeSync := { s.masternodeSync with mapSeenSyncMNB, lastMasternodeList := time } }

/-- `CMasternodeSync::AddedMasternodeWinner` (`masternode-sync.cpp:106-131`). -/
def addedMasternodeWinner (time : Int) (hash : UInt256) (s : SyncNode) : SyncNode :=
  match countSeen hash s.masternodeSync.mapSeenSyncMNW with
  | none => s
  | some mapSeenSyncMNW =>
    { s with
      masternodeSync := { s.masternodeSync with mapSeenSyncMNW, lastMasternodeWinner := time } }

/-- `CMasternodeSync::ProcessMessage` of an 'ssc' (`masternode-sync.cpp:186-212`). -/
def syncStatusCount (nItemID nCount : Int) (s : SyncNode) : SyncNode :=
  let sync := s.masternodeSync
  if s.stage.toNat ≥ SyncStage.finished.toNat then s
  else if nItemID ≠ s.stage.toNat then s
  else
    match s.stage with
    | .list =>
      { s with
        masternodeSync := { sync with
          sumMasternodeList := sync.sumMasternodeList + nCount
          countMasternodeList := sync.countMasternodeList + 1 } }
    | .mnw =>
      { s with
        masternodeSync := { sync with
          sumMasternodeWinner := sync.sumMasternodeWinner + nCount
          countMasternodeWinner := sync.countMasternodeWinner + 1 } }
    | .initial | .sporks | .gm | .failed | .finished => s

/-- A new peer, without marks. -/
def connect (addr : CNetAddr) (nVersion : Int) (s : SyncNode) : SyncNode :=
  { s with
    vNodes := s.vNodes ++ [⟨s.nLastNodeId, addr, nVersion, [], List.nodup_nil⟩]
    nLastNodeId := s.nLastNodeId + 1 }

/-- `CMasternodeMan::CheckAndRemove` forgets the notes that have run out
(`masternodeman.cpp:321-329`, `:351-359`). -/
def forget (time : Int) (s : SyncNode) : SyncNode :=
  { s with
    mWeAskedForMasternodeList := s.mWeAskedForMasternodeList.retain fun _ t => !decide (t < time)
    mWeAskedForWinnerMasternodeList :=
      s.mWeAskedForWinnerMasternodeList.retain fun _ t => !decide (t < time) }

end SyncNode

/-- What happens to the sync. -/
inductive SyncEvent where
  | process (c : SyncCall)
  /-- Another thread asks whether the blockchain is synced. -/
  | isBlockchainSynced (c : SyncCall)
  /-- `mnsync reset` (`rpcmisc.cpp:173-176`). -/
  | reset (time : Int)
  | addedMasternodeList (time : Int) (hash : UInt256)
  | addedMasternodeWinner (time : Int) (hash : UInt256)
  | syncStatusCount (nItemID nCount : Int)
  | connect (addr : CNetAddr) (nVersion : Int)
  /-- A peer sends its version. -/
  | version (id : Nat) (nVersion : Int)
  /-- A peer asks for the winners. -/
  | mnget (id : Nat)
  | disconnect (id : Nat)
  | forget (time : Int)

/-- A step of the sync. -/
def syncStep (network : Network) (s : SyncNode) : SyncEvent → SyncNode
  | .process c => s.process network c
  | .isBlockchainSynced c => (s.isBlockchainSynced c).1
  | .reset time => s.reset time
  | .addedMasternodeList time hash => s.addedMasternodeList time hash
  | .addedMasternodeWinner time hash => s.addedMasternodeWinner time hash
  | .syncStatusCount nItemID nCount => s.syncStatusCount nItemID nCount
  | .connect addr nVersion => s.connect addr nVersion
  | .version id nVersion =>
    { s with
      vNodes := s.vNodes.map fun pnode => if pnode.id = id then { pnode with nVersion } else pnode }
  | .mnget id =>
    { s with
      vNodes := s.vNodes.map fun pnode =>
        if pnode.id = id then pnode.fulfilledRequest .mnget else pnode }
  | .disconnect id => { s with vNodes := s.vNodes.filter fun pnode => pnode.id != id }
  | .forget time => s.forget time

end Esbcoin
