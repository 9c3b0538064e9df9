import Esbcoin.Validation.Tip

/-!
# Verifying the database

`CVerifyDB::VerifyDB` (`src/main.cpp:4032-4107`) disconnects the last blocks on a view of its
own, and at level 4 connects them again. The view is thrown away, but the node's tables are
those that connecting and disconnecting always change.
-/

namespace Esbcoin

/-- What a run of `VerifyDB` asks of the rest of the node. -/
structure VerifyEnv where
  /-- The answers for the block with this hash. -/
  tipEnv : UInt256 → TipEnv
  /-- Both caches are small enough when the block is reached. -/
  cacheFits : UInt256 → Bool
  /-- `ShutdownRequested` behind the checks of the block. -/
  shutdownRequested : UInt256 → Bool

/-- The tables of the node and the variables of `VerifyDB`. -/
structure VerifyState where
  node : NodeState
  coins : CoinsView
  /-- The block the view is at. -/
  pindexState : UInt256
  /-- `pindexFailure` is not null. -/
  failure : Bool := false
  /-- The last block of the loop that reconnects, once it has begun. -/
  pindex : Option UInt256 := none

/-- The undo data of the entry, if it has any, can be read (`main.cpp:4066-4073`). -/
def undoIsReadable (env : ConnectEnv) (node : NodeState) (pindex : CBlockIndex) : Bool :=
  match pindex.getUndoPos with
  | none => true
  | some pos =>
    match node.undoFiles.lookup pos, pindex.pprev with
    | some record, some hashPrev => (readUndo env record hashPrev).isSome
    | _, _ => false

/-- The memory-only disconnect (`main.cpp:4075-4085`). -/
def verifyDisconnect (env : VerifyEnv) (hash : UInt256) (pindex : CBlockIndex) (block : CBlock)
    (hashPrev : UInt256) : EStateM Failure VerifyState Unit := fun v =>
  match disconnectBlock (env.tipEnv hash).toConnectEnv block ⟨v.node, pindex, v.coins⟩ with
  | .error _ s => .error (.error "VerifyDB(3)") { v with node := s.node, coins := s.view }
  | .ok fClean s =>
    .ok () { v with
      node := s.node, coins := s.view, pindexState := hashPrev, failure := v.failure || !fClean }

/-- One turn of the loop backwards; the result says whether to go on. -/
def verifyBlock (env : VerifyEnv) (nCheckLevel : Nat) (hash : UInt256) (pindex : CBlockIndex)
    (hashPrev : UInt256) : EStateM Failure VerifyState Bool := fun v =>
  match readBlockFromDisk (env.tipEnv hash) hash with
  | none => .error (.error "VerifyDB(0)") v
  | some block =>
    let checked := checkBlock (env.tipEnv hash).toCheckEnv v.node.mapBlockIndex v.node.chainActive
      block true
    if nCheckLevel ≥ 1 && !checked.isOk then .error (.error "VerifyDB(1)") v
    else if nCheckLevel ≥ 2 && !undoIsReadable (env.tipEnv hash).toConnectEnv v.node pindex then
      .error (.error "VerifyDB(2)") v
    else if nCheckLevel ≥ 3 && hash == v.pindexState && env.cacheFits hash then
      match verifyDisconnect env hash pindex block hashPrev v with
      | .error failure v => .error failure v
      | .ok () v => .ok (!env.shutdownRequested hash) v
    else .ok (!env.shutdownRequested hash) v

/-- The loop backwards from an entry; the result says whether no shutdown was requested. -/
def verifyBlocks (env : VerifyEnv) (nCheckLevel : Nat) (nCheckDepth : Int) :
    Nat → Option UInt256 → EStateM Failure VerifyState Bool
  | 0, _ => pure true
  | _ + 1, none => pure true
  | fuel + 1, some hash => fun v =>
    match v.node.mapBlockIndex.lookup hash with
    | none => .error .crash v
    | some pindex =>
      match pindex.pprev with
      | none => .ok true v
      | some hashPrev =>
        if pindex.nHeight < v.node.chainActive.height - nCheckDepth then .ok true v
        else
          match verifyBlock env nCheckLevel hash pindex hashPrev v with
          | .error failure v => .error failure v
          | .ok false v => .ok false v
          | .ok true v => verifyBlocks env nCheckLevel nCheckDepth fuel (some hashPrev) v

/-- One turn of the loop that reconnects, behind the block with `hash`. -/
def reconnectBlock (env : VerifyEnv) (hash : UInt256) : EStateM Failure VerifyState Unit :=
  fun v =>
    match v.node.mapBlockIndex.lookup hash with
    | none => .error .crash v
    | some pindexLast =>
      match v.node.chainActive.next hash pindexLast with
      | none => .error .crash v
      | some hashNext =>
        match v.node.mapBlockIndex.lookup hashNext,
            readBlockFromDisk (env.tipEnv hashNext) hashNext with
        | none, _ => .error .crash v
        | some _, none => .error (.error "VerifyDB(4)") v
        | some pindex, some block =>
          match connectBlock (env.tipEnv hashNext).toConnectEnv block false false
              ⟨v.node, pindex, v.coins⟩ with
          | .error _ s => .error (.error "VerifyDB(4)") { v with node := s.node, coins := s.view }
          | .ok () s => .ok () { v with node := s.node, coins := s.view, pindex := some hashNext }

/-- The loop of `VerifyDB` that connects again. -/
def reconnectBlocks (env : VerifyEnv) : Nat → EStateM Failure VerifyState Unit
  | 0 => pure ()
  | fuel + 1 => fun v =>
    match v.pindex with
    | none => .ok () v
    | some hash =>
      if some hash = v.node.chainActive.tip then .ok () v
      else
        match reconnectBlock env hash v with
        | .error failure v => .error failure v
        | .ok () v => reconnectBlocks env fuel v

/-- `VerifyDB` behind its first checks, with the level and the depth it works with. Neither loop
runs longer than the chain. -/
def verifyFrom (env : VerifyEnv) (nCheckLevel : Nat) (nCheckDepth : Int) :
    EStateM Failure VerifyState Bool := do
  let fuel := (← get).node.chainActive.vChain.length
  let more ← verifyBlocks env nCheckLevel nCheckDepth fuel (some (← get).pindexState)
  if !more then return true
  if (← get).failure then throw (.error "VerifyDB() : *** coin database inconsistencies found")
  if nCheckLevel ≥ 4 then
    modify fun v => { v with pindex := some v.pindexState }
    reconnectBlocks env fuel
  return true

/-- `CVerifyDB::VerifyDB` with the view `coinsview`: the tables and variables it ends with. -/
def verifyDB (env : VerifyEnv) (coinsview : CoinsView) (nCheckLevel nCheckDepth : Int)
    (node : NodeState) : Option (EStateM.Result Failure VerifyState Bool) :=
  match node.chainActive.tip with
  | none => none
  | some hash =>
    if ((node.mapBlockIndex.lookup hash).bind CBlockIndex.pprev).isNone then none
    else
      let depth := if nCheckDepth ≤ 0 then 1000000000 else nCheckDepth
      some (verifyFrom env (max 0 (min 4 nCheckLevel)).toNat (min depth node.chainActive.height)
        { node, coins := coinsview, pindexState := hash })

end Esbcoin
