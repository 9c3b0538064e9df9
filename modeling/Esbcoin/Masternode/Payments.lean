import Esbcoin.Chain.Params
import Esbcoin.Lib.AssocMap
import Esbcoin.Lib.KeyedList
import Esbcoin.Lib.StepRun
import Esbcoin.Masternode

/-!
# Masternode payment votes

Rendering of the vote tables of `src/masternode-payments.h` and of what fills and empties them
in `src/masternode-payments.cpp`: the messages `mnw` and `mnwp`, the votes of the node's own
masternode, and the cleaning of old heights. Both messages run the same checks on a winner, so
they are two uses of `receiveWinner`. What the rest of the node answers is the record
`PaymentsEnv`; the hash of a winner is a parameter.
-/

namespace Esbcoin.Payments

/-- `MNPAYMENTS_SIGNATURES_REQUIRED` (`masternode-payments.h:27`). -/
def MNPAYMENTS_SIGNATURES_REQUIRED : Int := 6

/-- `MNPAYMENTS_SIGNATURES_TOTAL` (`masternode-payments.h:28`). -/
def MNPAYMENTS_SIGNATURES_TOTAL : Int := 10

/-- `CMasternodePayee` (`masternode-payments.h:35-64`). -/
structure CMasternodePayee where
  scriptPubKey : CScript
  mnlevel : Nat
  nVotes : Int
deriving DecidableEq, Repr

/-- `CMasternodeBlockPayees` (`masternode-payments.h:67-138`). `AddPayee` is the only function
that adds to `vecPayments`, and it never adds a script twice. -/
structure CMasternodeBlockPayees where
  nBlockHeight : Int
  vecPayments : List CMasternodePayee
  distinct : (vecPayments.map CMasternodePayee.scriptPubKey).Nodup
deriving DecidableEq, Repr

namespace CMasternodeBlockPayees

/-- `CMasternodeBlockPayees::CMasternodeBlockPayees`. -/
def new (nBlockHeightIn : Int) : CMasternodeBlockPayees := ⟨nBlockHeightIn, [], List.nodup_nil⟩

/-- `CMasternodeBlockPayees::AddPayee` (`masternode-payments.h:79-91`): a script that is found
keeps the level it has. -/
def addPayee (block : CMasternodeBlockPayees) (mnlevel : Nat) (payeeIn : CScript)
    (nIncrement : Int) : CMasternodeBlockPayees where
  nBlockHeight := block.nBlockHeight
  vecPayments := KeyedList.upsert CMasternodePayee.scriptPubKey payeeIn
    (fun payee => { payee with nVotes := payee.nVotes + nIncrement })
    ⟨payeeIn, mnlevel, nIncrement⟩ block.vecPayments
  distinct := by
    refine KeyedList.nodup_upsert ?_ ?_ block.distinct
    · exact fun _ equal => equal
    · rfl

/-- The element of `vecPayments` with this script. -/
def payeeOf (block : CMasternodeBlockPayees) (payee : CScript) : Option CMasternodePayee :=
  KeyedList.find CMasternodePayee.scriptPubKey payee block.vecPayments

@[simp] theorem payeeOf_new (nBlockHeight : Int) (payee : CScript) :
    (new nBlockHeight).payeeOf payee = none := rfl

theorem payeeOf_addPayee (block : CMasternodeBlockPayees) (mnlevel : Nat) (payeeIn : CScript)
    (nIncrement : Int) (payee : CScript) :
    (block.addPayee mnlevel payeeIn nIncrement).payeeOf payee =
      if payee = payeeIn then
        some (((block.payeeOf payeeIn).map
          (fun p => { p with nVotes := p.nVotes + nIncrement })).getD
            ⟨payeeIn, mnlevel, nIncrement⟩)
      else block.payeeOf payee := by
  refine KeyedList.find_upsert ?_ ?_ _ _
  · exact fun _ equal => equal
  · rfl

theorem mem_vecPayments_iff (block : CMasternodeBlockPayees) (payee : CMasternodePayee) :
    payee ∈ block.vecPayments ↔ block.payeeOf payee.scriptPubKey = some payee :=
  KeyedList.mem_iff_find block.distinct payee

end CMasternodeBlockPayees

/-- `CMasternodePaymentWinner` (`masternode-payments.h:141-205`). -/
structure CMasternodePaymentWinner where
  vinMasternode : CTxIn
  nBlockHeight : Int
  payee : CScript
  vchSig : List UInt8
  payeeLevel : Nat
deriving DecidableEq, Repr

/-- The hash of what `CMasternodePaymentWinner::GetHash` serialises: payee, height and outpoint
(`masternode-payments.h:165-173`). -/
abbrev WinnerHash := CScript → Int → COutPoint → UInt256

/-- `CMasternodePaymentWinner::GetHash` (`masternode-payments.h:165-173`): neither the level nor
the signature enters. -/
def CMasternodePaymentWinner.getHash (sha : WinnerHash) (winner : CMasternodePaymentWinner) :
    UInt256 :=
  sha winner.payee winner.nBlockHeight winner.vinMasternode.prevout

/-- `CMasternodePayments` (`masternode-payments.h:213-260`). -/
structure CMasternodePayments where
  nLastBlockHeight : Int
  mapMasternodePayeeVotes : AssocMap UInt256 CMasternodePaymentWinner
  mapMasternodeBlocks : AssocMap Int CMasternodeBlockPayees
  mapMasternodesLastVote : AssocMap UInt256 Int

namespace CMasternodePayments

/-- The empty tables. -/
def init : CMasternodePayments := ⟨0, ∅, ∅, ∅⟩

/-- `CMasternodePayments::Clear` (`masternode-payments.h:229-235`). -/
def clear (s : CMasternodePayments) : CMasternodePayments :=
  { s with mapMasternodePayeeVotes := ∅, mapMasternodeBlocks := ∅, mapMasternodesLastVote := ∅ }

end CMasternodePayments

/-- The answers of the rest of the node while one call runs. -/
structure PaymentsEnv where
  /-- `masternodeSync.IsBlockchainSynced()`. -/
  blockchainSynced : Bool := true
  /-- `fLiteMode`. -/
  fLiteMode : Bool := false
  /-- `pfrom->nVersion`. -/
  nVersion : Int := CONSENSUS_FORK_REWARD_UPDATE_PROTOCOL
  /-- Does `TRY_LOCK(cs_main)` get the lock? -/
  locked : Bool := true
  /-- `chainActive.Height()`, -1 without a tip. -/
  chainHeight : Int
  /-- `mnodeman.vMasternodes`. -/
  vMasternodes : List CMasternode
  /-- `mnodeman.GetMasternodeRank` of an input, a height and a protocol version. -/
  getMasternodeRank : CTxIn → Int → Int → Int
  /-- `GetBlockHash`. -/
  getBlockHash : Int → Option UInt256
  /-- `obfuScationSigner.VerifyMessage` of a key, a signature and the message that
  `SignatureValid` makes of outpoint, height and payee. -/
  verifyMessage : List UInt8 → List UInt8 → COutPoint → Int → CScript → Bool
  /-- `activeMasternode.vin` where `fMasterNode` is set and `SetKey` succeeds. -/
  activeMasternode : Option CTxIn := none
  /-- `mnodeman.GetNextMasternodeInQueueForPayment` of a height and a level, which passes over
  the masternodes that `mapMasternodeBlocks` has scheduled. -/
  getNextMasternodeInQueueForPayment :
    AssocMap Int CMasternodeBlockPayees → Int → Nat → Option CMasternode := fun _ _ _ => none
  /-- The signature of `CMasternodePaymentWinner::Sign`, where it succeeds. -/
  sign : COutPoint → Int → CScript → Option (List UInt8) := fun _ _ _ => none

/-! ## One winner -/

section Winner

variable (sha : WinnerHash)

/-- The key of `mapMasternodesLastVote` (`masternode-payments.cpp:393`). -/
def voteKey (outMasternode : COutPoint) (mnlevel : Nat) : UInt256 :=
  ((outMasternode.hash + BitVec.ofNat 256 outMasternode.n.toNat) <<< 4) + BitVec.ofNat 256 mnlevel

/-- `CMasternodePayments::CanVote` (`masternode-payments.cpp:389-410`). -/
def canVote (s : CMasternodePayments) (outMasternode : COutPoint) (nBlockHeight : Int)
    (mnlevel : Nat) : CMasternodePayments × Bool :=
  let key := voteKey outMasternode mnlevel
  let voted := { s with
    mapMasternodesLastVote := s.mapMasternodesLastVote.insert key nBlockHeight }
  match s.mapMasternodesLastVote.lookup key with
  | none => (voted, true)
  | some last_vote => if last_vote ≥ nBlockHeight then (s, false) else (voted, true)

/-- The two insertions of `AddWinningMasternode` (`masternode-payments.cpp:422-429`). -/
def storeWinner (s : CMasternodePayments) (winnerIn : CMasternodePaymentWinner) :
    CMasternodePayments :=
  let mnblock := (s.mapMasternodeBlocks.lookup winnerIn.nBlockHeight).getD
    (.new winnerIn.nBlockHeight)
  { s with
    mapMasternodePayeeVotes := s.mapMasternodePayeeVotes.insert (winnerIn.getHash sha) winnerIn
    mapMasternodeBlocks := s.mapMasternodeBlocks.insert winnerIn.nBlockHeight
      (mnblock.addPayee winnerIn.payeeLevel winnerIn.payee 1) }

/-- `CMasternodePayments::AddWinningMasternode` (`masternode-payments.cpp:412-433`). -/
def addWinningMasternode (env : PaymentsEnv) (s : CMasternodePayments)
    (winnerIn : CMasternodePaymentWinner) : CMasternodePayments × Bool :=
  match env.getBlockHash (winnerIn.nBlockHeight - 100) with
  | none => (s, false)
  | some _ =>
    if s.mapMasternodePayeeVotes.contains (winnerIn.getHash sha) then (s, false)
    else (storeWinner sha s winnerIn, true)

/-- `CMasternodePaymentWinner::IsValid` (`masternode-payments.cpp:623-660`). -/
def CMasternodePaymentWinner.isValid (env : PaymentsEnv) (winner : CMasternodePaymentWinner) :
    Bool :=
  match findVin env.vMasternodes winner.vinMasternode with
  | none => false
  | some pmn =>
    if pmn.protocolVersion < activeProtocol env.chainHeight then false
    else
      let n := env.getMasternodeRank winner.vinMasternode (winner.nBlockHeight - 100)
        (activeProtocol env.chainHeight)
      if n = -1 then false else !decide (n > MNPAYMENTS_SIGNATURES_TOTAL)

/-- `CMasternodePaymentWinner::SignatureValid` (`masternode-payments.cpp:767-785`). -/
def CMasternodePaymentWinner.signatureValid (env : PaymentsEnv)
    (winner : CMasternodePaymentWinner) : Bool :=
  match findVin env.vMasternodes winner.vinMasternode with
  | none => false
  | some pmn =>
    env.verifyMessage pmn.pubKeyMasternode winner.vchSig winner.vinMasternode.prevout
      winner.nBlockHeight winner.payee

/-- `int(n * 1.25)` of a count of masternodes. -/
def fiveQuarters (n : Nat) : Int := (n * 5 / 4 : Nat)

/-- Is the height of a winner in the window, which `slack` moves back
(`masternode-payments.cpp:195-196`, `:266-267`)? -/
def inWindow (env : PaymentsEnv) (slack : Int) (winner : CMasternodePaymentWinner) : Bool :=
  let nFirstBlock := env.chainHeight - fiveQuarters (countEnabled env.vMasternodes
    winner.payeeLevel (activeProtocol env.chainHeight) env.chainHeight) - slack
  !(decide (winner.nBlockHeight < nFirstBlock) ||
    decide (winner.nBlockHeight > env.chainHeight + 20))

/-- A winner as `mnw` and `mnwp` take it: with the level of the payee's masternode
(`masternode-payments.cpp:174-181`, `:244-251`). -/
def withLevel (env : PaymentsEnv) (winner : CMasternodePaymentWinner) :
    Option CMasternodePaymentWinner :=
  (findPayee env.vMasternodes winner.payee).map
    (fun winner_mn => { winner with payeeLevel := winner_mn.level env.chainHeight })

/-- The checks of a winner up to `CanVote` (`masternode-payments.cpp:174-199`, `:244-270`):
the winner with its level, if it passes them. -/
def beforeCanVote (env : PaymentsEnv) (slack : Int) (s : CMasternodePayments)
    (winner : CMasternodePaymentWinner) : Option CMasternodePaymentWinner :=
  match withLevel env winner with
  | none => none
  | some winner =>
    if s.mapMasternodePayeeVotes.contains (winner.getHash sha) then none
    else if !winner.isValid env then none
    else if !inWindow env slack winner then none
    else some winner

/-- What `mnw` and `mnwp` do with a winner (`masternode-payments.cpp:174-220`, `:244-292`).
`CanVote` counts where `binding` is set; the result tells whether it was added. -/
def receiveWinner (env : PaymentsEnv) (slack : Int) (binding : Bool) (s : CMasternodePayments)
    (winner : CMasternodePaymentWinner) : CMasternodePayments × Bool :=
  match beforeCanVote sha env slack s winner with
  | none => (s, false)
  | some winner =>
    let (s, vote) := canVote s winner.vinMasternode.prevout winner.nBlockHeight winner.payeeLevel
    if !vote && binding then (s, false)
    else if !winner.signatureValid env then (s, false)
    else addWinningMasternode sha env s winner

end Winner

/-! ## The calls -/

section Calls

variable (sha : WinnerHash)

/-- The tests both messages make before they look at a winner (`masternode-payments.cpp:133`,
`:135`, `:161-168`, `:225-231`). -/
def PaymentsEnv.handlesMessages (env : PaymentsEnv) : Bool :=
  env.blockchainSynced && !env.fLiteMode && !decide (env.nVersion < activeProtocol env.chainHeight)
    && decide (0 ≤ env.chainHeight)

/-- The message `mnw` (`masternode-payments.cpp:156-221`): the tables behind it, and the winner
that was added. -/
def mnw (env : PaymentsEnv) (s : CMasternodePayments) (winner : CMasternodePaymentWinner) :
    CMasternodePayments × Bool :=
  if env.handlesMessages && env.locked then receiveWinner sha env 0 true s winner
  else (s, false)

/-- The message `mnwp` (`masternode-payments.cpp:223-309`). -/
def mnwp (env : PaymentsEnv) (bRelay : Bool) (s : CMasternodePayments)
    (winners : List CMasternodePaymentWinner) : CMasternodePayments :=
  if env.handlesMessages then
    winners.foldl (fun s winner => (receiveWinner sha env 1 bRelay s winner).1) s
  else s

/-- A winner on its own, or one winner of a list. -/
inductive WinnerMessage where
  | mnw (env : PaymentsEnv) (winner : CMasternodePaymentWinner)
  | mnwp (env : PaymentsEnv) (bRelay : Bool) (winner : CMasternodePaymentWinner)

namespace WinnerMessage

/-- What the node answers while the message is handled. -/
def env : WinnerMessage → PaymentsEnv
  | .mnw env _ => env
  | .mnwp env _ _ => env

/-- The winner of a message. -/
def winner : WinnerMessage → CMasternodePaymentWinner
  | .mnw _ winner => winner
  | .mnwp _ _ winner => winner

/-- Does the node look at the winner at all? -/
def handled : WinnerMessage → Bool
  | .mnw env _ => env.handlesMessages && env.locked
  | .mnwp env _ _ => env.handlesMessages

/-- How far back the window starts. -/
def slack : WinnerMessage → Int
  | .mnw _ _ => 0
  | .mnwp _ _ _ => 1

/-- Does the verdict of `CanVote` count? -/
def binding : WinnerMessage → Bool
  | .mnw _ _ => true
  | .mnwp _ bRelay _ => bRelay

end WinnerMessage

/-- A message, and whether its winner was added. -/
def receive (s : CMasternodePayments) (m : WinnerMessage) : CMasternodePayments × Bool :=
  if m.handled then receiveWinner sha m.env m.slack m.binding s m.winner else (s, false)

/-- The winner `ProcessBlock` makes for one level (`masternode-payments.cpp:703-725`). -/
def newWinner (env : PaymentsEnv) (vin : CTxIn) (s : CMasternodePayments)
    (nWinnerBlockHeight : Int) (mnlevel : Nat) : Option CMasternodePaymentWinner :=
  match env.getNextMasternodeInQueueForPayment s.mapMasternodeBlocks nWinnerBlockHeight mnlevel with
  | none => none
  | some pmn =>
    (env.sign vin.prevout nWinnerBlockHeight pmn.payee).map (fun vchSig =>
      { vinMasternode := vin, nBlockHeight := nWinnerBlockHeight, payee := pmn.payee
        vchSig, payeeLevel := mnlevel })

/-- One turn of the loop of `ProcessBlock` (`masternode-payments.cpp:699-735`), and whether a
winner was added. -/
def voteForLevel (env : PaymentsEnv) (vin : CTxIn) (nWinnerBlockHeight : Int)
    (s : CMasternodePayments) (mnlevel : Nat) : CMasternodePayments × Bool :=
  match newWinner env vin s nWinnerBlockHeight mnlevel with
  | none => (s, false)
  | some winner => addWinningMasternode sha env s winner

/-- The loop of `ProcessBlock` over the levels (`masternode-payments.cpp:699-735`). -/
def voteForLevels (env : PaymentsEnv) (vin : CTxIn) (nWinnerBlockHeight : Int) :
    List Nat → CMasternodePayments → CMasternodePayments × Bool
  | [], s => (s, false)
  | mnlevel :: levels, s =>
    let (s, added) := voteForLevel sha env vin nWinnerBlockHeight s mnlevel
    let (s, more) := voteForLevels env vin nWinnerBlockHeight levels s
    (s, added || more)

/-- The masternode `ProcessBlock` votes with, if it comes to its loop
(`masternode-payments.cpp:664-695`). -/
def votesWith (env : PaymentsEnv) (s : CMasternodePayments) (nWinnerBlockHeight : Int) :
    Option CTxIn :=
  match env.activeMasternode with
  | none => none
  | some vin =>
    if nWinnerBlockHeight ≤ s.nLastBlockHeight then none
    else
      let n := env.getMasternodeRank vin (nWinnerBlockHeight - 100) (activeProtocol env.chainHeight)
      if n = -1 ∨ n > MNPAYMENTS_SIGNATURES_TOTAL then none else some vin

/-- `CMasternodePayments::ProcessBlock` (`masternode-payments.cpp:662-759`). -/
def processBlock (env : PaymentsEnv) (s : CMasternodePayments) (nBlockHeight : Int) :
    CMasternodePayments :=
  let nWinnerBlockHeight := nBlockHeight + 10
  match votesWith env s nWinnerBlockHeight with
  | none => s
  | some vin =>
    let (s, added) := voteForLevels sha env vin nWinnerBlockHeight CMasternode.levels s
    if added then { s with nLastBlockHeight := nWinnerBlockHeight } else s

/-- Is the height of `winner` one that `CleanPaymentList` forgets
(`masternode-payments.cpp:606-612`)? -/
def tooOld (env : PaymentsEnv) (nBlockHeight : Int) : Bool :=
  let nLimit := max (fiveQuarters env.vMasternodes.length) 1000
  decide (env.chainHeight - nBlockHeight > nLimit)

/-- `CMasternodePayments::CleanPaymentList` (`masternode-payments.cpp:594-621`). -/
def cleanPaymentList (env : PaymentsEnv) (s : CMasternodePayments) : CMasternodePayments :=
  if !env.locked || decide (env.chainHeight < 0) then s
  else
    let old := (s.mapMasternodePayeeVotes.entries.map (fun e => e.2.nBlockHeight)).filter
      (tooOld env)
    { s with
      mapMasternodePayeeVotes := s.mapMasternodePayeeVotes.retain
        (fun _ winner => !tooOld env winner.nBlockHeight)
      mapMasternodeBlocks := s.mapMasternodeBlocks.eraseAll old }

end Calls

end Esbcoin.Payments
