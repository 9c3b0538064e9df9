import Esbcoin.Primitives

/-!
# Masternodes

The part of `CMasternode` (`src/masternode.h:106-290`) that payments, scores and ranks read,
and the look-ups of `CMasternodeMan` (`src/masternodeman.cpp:446-590`). A record is what
`CMasternode::Check` leaves: every place modelled here that reads `IsEnabled` calls `Check`
right before.
-/

namespace Esbcoin

/-- `CMasternode` (`masternode.h:106-142`). -/
structure CMasternode where
  vin : CTxIn
  /-- `GetScriptForDestination(pubKeyCollateralAddress.GetID())`. -/
  payee : CScript
  pubKeyMasternode : List UInt8
  /-- `activeState == MASTERNODE_ENABLED`. -/
  isEnabled : Bool
  deposit : Int
  sigTime : Int
  protocolVersion : Int
deriving DecidableEq, Repr

namespace CMasternode

/-- `LevelValue::UNSPECIFIED` (`masternode.h:126`). -/
def UNSPECIFIED : Nat := 0

/-- `LevelValue::MIN` (`masternode.h:127`). -/
def MIN : Nat := 1

/-- `LevelValue::MAX` (`masternode.h:129`). -/
def MAX : Nat := 4

/-- The levels from `MIN` to `MAX`. -/
def levels : List Nat := List.range' MIN (MAX + 1 - MIN)

/-- `CMasternode::Level` of a deposit (`masternode.cpp:311-322`). -/
def levelOf (vin_val blockHeight : Int) : Nat :=
  if blockHeight ≥ 0 then
    if vin_val = 5000 * COIN then 1
    else if vin_val = 25000 * COIN then 2
    else if vin_val = 50000 * COIN then 3
    else if vin_val = 250000 * COIN then 4
    else 0
  else 0

/-- `CMasternode::Level` (`masternode.h:279-282`). -/
def level (mn : CMasternode) (chainHeight : Int) : Nat := levelOf mn.deposit chainHeight

end CMasternode

/-- `CMasternodeMan::Find` of a payee (`masternodeman.cpp:567-578`). -/
def findPayee (vMasternodes : List CMasternode) (payee : CScript) : Option CMasternode :=
  vMasternodes.find? (fun mn => mn.payee == payee)

/-- `CMasternodeMan::Find` of an input (`masternodeman.cpp:580-589`). -/
def findVin (vMasternodes : List CMasternode) (vin : CTxIn) : Option CMasternode :=
  vMasternodes.find? (fun mn => mn.vin.prevout == vin.prevout)

/-- `CMasternodeMan::CountEnabled` (`masternodeman.cpp:446-461`). -/
def countEnabled (vMasternodes : List CMasternode) (mnlevel : Nat) (protocolVersion : Int)
    (chainHeight : Int) : Nat :=
  vMasternodes.countP (fun mn =>
    !(mnlevel != CMasternode.UNSPECIFIED && mnlevel != mn.level chainHeight) &&
      decide (mn.protocolVersion ≥ protocolVersion) && mn.isEnabled)

end Esbcoin
