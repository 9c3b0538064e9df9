import Esbcoin.Coins.FlatCoins
import Esbcoin.Lib.AssocMap
import Esbcoin.ValidationState

/-!
# Updating the view by a transaction, and back

`UpdateCoins` (`src/main.cpp:1918-1932`) and the part of `DisconnectBlock` that takes a
transaction back (`src/main.cpp:2069-2123`). While a block is disconnected the view, the
clean flag and `mapStakeSpent` change together; a call that fails leaves them as they are then.
-/

namespace Esbcoin

/-- The loop of `UpdateCoins` over the inputs; `none` is its assertion. -/
def spendInputs (inputs : FlatCoins) : List CTxIn → Option (FlatCoins × List CTxInUndo)
  | [] => some (inputs, [])
  | txin :: vin =>
    match (inputs.record txin.prevout.hash).spend txin.prevout with
    | none => none
    | some (coins, undo) =>
      match spendInputs (inputs.put txin.prevout.hash coins) vin with
      | none => none
      | some (inputs, vprevout) => some (inputs, undo :: vprevout)

/-- `UpdateCoins` (`main.cpp:1918-1932`). -/
def updateCoins (tx : CTransaction) (inputs : FlatCoins) (nHeight : Int) :
    Option (FlatCoins × CTxUndo) :=
  (if tx.isCoinBase then some (inputs, []) else spendInputs inputs tx.vin).map
    fun (inputs, vprevout) => (inputs.put tx.getHash (CCoins.fromTx tx nHeight), ⟨vprevout⟩)

/-- What `DisconnectBlock` changes as it goes. -/
structure Disconnecting where
  coins : FlatCoins
  mapStakeSpent : AssocMap COutPoint Int
  fClean : Bool

/-- The record of a transaction whose outputs are removed, and whether it was the one the
block made (`main.cpp:2074-2090`). -/
def removeOutputs (outs : CCoins) (tx : CTransaction) (nHeight : Int) : CCoins × Bool :=
  let outs := outs.clearUnspendable
  let outsBlock := CCoins.fromTx tx nHeight
  let outs :=
    if outsBlock.nVersion < 0 then { outs with nVersion := outsBlock.nVersion } else outs
  (CCoins.clear, outs.equal outsBlock)

/-- The record of a transaction one of whose outputs is put back, and whether that was as
it should be (`main.cpp:2101-2118`). The undo data's mark `fCoinStake` is not looked at. -/
def restoreOutput (coins : CCoins) (out : COutPoint) (undo : CTxInUndo) : CCoins × Bool :=
  let (coins, clean) :=
    if undo.nHeight ≠ 0 then
      ({ CCoins.clear with
          fCoinBase := undo.fCoinBase
          nHeight := (undo.nHeight : Int).bmod (2 ^ 32)
          nVersion := undo.nVersion },
        coins.isPruned)
    else (coins, !coins.isPruned)
  let clean := clean && !coins.isAvailable out.n
  let vout := coins.vout ++ List.replicate (out.n.toNat + 1 - coins.vout.length) CTxOut.null
  ({ coins with vout := vout.set out.n.toNat undo.txout }, clean)

namespace Disconnecting

/-- `DisconnectBlock` takes the outputs of a transaction out. -/
def removeTx (t : Disconnecting) (tx : CTransaction) (nHeight : Int) : Disconnecting :=
  let (outs, clean) := removeOutputs (t.coins.record tx.getHash) tx nHeight
  { t with coins := t.coins.put tx.getHash outs, fClean := t.fClean && clean }

/-- One turn of the loop over the inputs (`main.cpp:2098-2122`). -/
def restoreInput (t : Disconnecting) (out : COutPoint) (undo : CTxInUndo) : Disconnecting :=
  let (coins, clean) := restoreOutput (t.coins.record out.hash) out undo
  { coins := t.coins.put out.hash coins
    mapStakeSpent := t.mapStakeSpent.erase out
    fClean := t.fClean && clean }

/-- The loop over the inputs, the last first. -/
def restoreInputs (t : Disconnecting) (inputs : List (COutPoint × CTxInUndo)) : Disconnecting :=
  inputs.foldr (fun (out, undo) t => t.restoreInput out undo) t

end Disconnecting

/-- One turn of the loop of `DisconnectBlock` over the transactions; the first transaction
of the block has no undo data. -/
def disconnectTransaction (tx : CTransaction) (nHeight : Int) (txundo : Option CTxUndo) :
    EStateM Failure Disconnecting Unit := fun t =>
  let t := t.removeTx tx nHeight
  if tx.isCoinBase then .ok () t
  else
    match txundo with
    | none => .error .crash t
    | some txundo =>
      if txundo.vprevout.length ≠ tx.vin.length then
        .error (.error "DisconnectBlock() : transaction and undo data inconsistent") t
      else .ok () (t.restoreInputs (tx.prevouts.zip txundo.vprevout))

/-- The loop of `DisconnectBlock` over the transactions, the last first. -/
def disconnectTransactions (nHeight : Int) :
    List (CTransaction × Option CTxUndo) → EStateM Failure Disconnecting Unit
  | [] => pure ()
  | (tx, txundo) :: vtx => do
    disconnectTransactions nHeight vtx
    disconnectTransaction tx nHeight txundo

end Esbcoin
