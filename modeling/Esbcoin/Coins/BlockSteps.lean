import Esbcoin.Coins.Restore

namespace Esbcoin

open UndoLog CoinStep

/-- The steps of a transaction: its spends and its outputs. -/
def coinSteps (tx : CTransaction) (nHeight : Int) : List CoinStep :=
  (if tx.isCoinBase then [] else tx.prevouts.map spend) ++ [create tx nHeight]

/-- The steps of a transaction with their undo records. -/
def coinLog (tx : CTransaction) (nHeight : Int) (txundo : CTxUndo) :
    List (CoinStep × Option CTxInUndo) :=
  (if tx.isCoinBase then []
    else (tx.prevouts.zip txundo.vprevout).map fun (out, undo) => (spend out, some undo)) ++
    [(create tx nHeight, none)]

/-- An undo record as the undo file has it. -/
def CTxInUndo.readBack (undo : CTxInUndo) : CTxInUndo := undo.serialize.unserialize.getD undo

/-- The undo data of a transaction as the undo file has it. -/
def CTxUndo.readBack (txundo : CTxUndo) : CTxUndo := ⟨txundo.vprevout.map CTxInUndo.readBack⟩

/-- Transactions with their undo data, executed from `view`. -/
def execTransactions (nHeight : Int) (view : FlatCoins) :
    List CTransaction → Option (FlatCoins × List (CTransaction × CTxUndo))
  | [] => some (view, [])
  | tx :: vtx =>
    match updateCoins tx view nHeight with
    | none => none
    | some (view, txundo) =>
      match execTransactions nHeight view vtx with
      | none => none
      | some (view, rest) => some (view, (tx, txundo) :: rest)

variable {view view' : FlatCoins} {nHeight : Int}

theorem spendInputs_execAll {vin : List CTxIn} {vprevout : List CTxInUndo}
    (h : spendInputs view vin = some (view', vprevout)) :
    vprevout.length = vin.length ∧
      execAll exec view ((vin.map CTxIn.prevout).map spend) =
        some (view', ((vin.map CTxIn.prevout).zip vprevout).map
          fun (out, undo) => (spend out, some undo)) := by
  induction vin generalizing view vprevout with
  | nil =>
    obtain ⟨rfl, rfl⟩ := Prod.mk.inj (Option.some.inj h)
    exact ⟨rfl, rfl⟩
  | cons txin vin ih =>
    simp only [spendInputs] at h
    cases spends : (view.record txin.prevout.hash).spend txin.prevout with
    | none => simp [spends] at h
    | some result =>
      obtain ⟨coins, undo⟩ := result
      simp only [spends] at h
      cases rest : spendInputs (view.put txin.prevout.hash coins) vin with
      | none => simp [rest] at h
      | some result =>
        obtain ⟨view'', vprevout'⟩ := result
        simp only [rest, Option.some.injEq, Prod.mk.injEq] at h
        obtain ⟨rfl, rfl⟩ := h
        obtain ⟨length, executes⟩ := ih rest
        refine ⟨by simp [length], ?_⟩
        simp only [List.map_cons, execAll, exec, spends, Option.map_some, executes,
          List.zip_cons_cons]

theorem updateCoins_execAll {tx : CTransaction} {txundo : CTxUndo}
    (h : updateCoins tx view nHeight = some (view', txundo)) :
    (tx.isCoinBase = false → txundo.vprevout.length = tx.vin.length) ∧
      execAll exec view (coinSteps tx nHeight) = some (view', coinLog tx nHeight txundo) := by
  unfold updateCoins at h
  unfold coinSteps coinLog
  cases coinBase : tx.isCoinBase with
  | true =>
    rw [coinBase, if_pos rfl] at h
    obtain ⟨rfl, rfl⟩ := h
    exact ⟨by simp, rfl⟩
  | false =>
    rw [coinBase, if_neg (by simp)] at h
    simp only [Option.map_eq_some_iff, Prod.mk.injEq, Prod.exists] at h
    obtain ⟨spent, vprevout, spends, rfl, rfl⟩ := h
    obtain ⟨length, executes⟩ := spendInputs_execAll spends
    refine ⟨fun _ => length, ?_⟩
    rw [if_neg (by simp), if_neg (by simp), execAll_append]
    unfold CTransaction.prevouts
    rw [executes]
    rfl

theorem execTransactions_execAll {vtx : List CTransaction} {done : List (CTransaction × CTxUndo)}
    (h : execTransactions nHeight view vtx = some (view', done)) :
    done.map Prod.fst = vtx ∧
      (∀ entry ∈ done, entry.1.isCoinBase = false → entry.2.vprevout.length = entry.1.vin.length) ∧
      execAll exec view (vtx.flatMap fun tx => coinSteps tx nHeight) =
        some (view', done.flatMap fun (tx, txundo) => coinLog tx nHeight txundo) := by
  induction vtx generalizing view done with
  | nil =>
    obtain ⟨rfl, rfl⟩ := Prod.mk.inj (Option.some.inj h)
    exact ⟨rfl, by simp, rfl⟩
  | cons tx vtx ih =>
    simp only [execTransactions] at h
    cases first : updateCoins tx view nHeight with
    | none => simp [first] at h
    | some result =>
      obtain ⟨middle, txundo⟩ := result
      simp only [first] at h
      cases later : execTransactions nHeight middle vtx with
      | none => simp [later] at h
      | some result =>
        obtain ⟨last, rest⟩ := result
        simp only [later, Option.some.injEq, Prod.mk.injEq] at h
        obtain ⟨rfl, rfl⟩ := h
        obtain ⟨length, executes⟩ := updateCoins_execAll first
        obtain ⟨names, lengths, executesRest⟩ := ih later
        refine ⟨by simp [names], ?_, ?_⟩
        · intro entry member
          rcases List.mem_cons.mp member with rfl | member
          · exact length
          · exact lengths entry member
        · rw [List.flatMap_cons, List.flatMap_cons, execAll_append, executes]
          simp only [Option.bind_some, executesRest, Option.map_some]

/-- The loop over the inputs takes back the spends. -/
theorem restoreInputs_eq_revertAll (t : Disconnecting) (inputs : List (COutPoint × CTxInUndo)) :
    t.restoreInputs (inputs.map fun (out, undo) => (out, undo.readBack)) =
      revertAll revert t (inputs.map fun (out, undo) => (spend out, some undo)) := by
  induction inputs with
  | nil => rfl
  | cons entry inputs ih =>
    obtain ⟨out, undo⟩ := entry
    show (t.restoreInputs _).restoreInput out undo.readBack = _
    rw [ih]
    rfl

/-- A transaction is taken back by the undo data read from disk; one without inputs to
restore needs none. -/
theorem disconnectTransaction_eq_revertAll {tx : CTransaction} {txundo : CTxUndo}
    {given : Option CTxUndo}
    (length : tx.isCoinBase = false → txundo.vprevout.length = tx.vin.length)
    (given_eq : tx.isCoinBase = false → given = some txundo.readBack) (t : Disconnecting) :
    disconnectTransaction tx nHeight given t =
      .ok () (revertAll revert t (coinLog tx nHeight txundo)) := by
  unfold disconnectTransaction coinLog
  rw [revertAll_append]
  cases coinBase : tx.isCoinBase with
  | true => rfl
  | false =>
    rw [given_eq coinBase]
    have same : txundo.readBack.vprevout.length = tx.vin.length := by
      simp [CTxUndo.readBack, length coinBase]
    have inputs : tx.prevouts.zip txundo.readBack.vprevout =
        (tx.prevouts.zip txundo.vprevout).map fun (out, undo) => (out, undo.readBack) := by
      simp [CTxUndo.readBack, List.zip_map_right, Prod.map]
    simp only [Bool.false_eq_true, ↓reduceIte, same, ne_eq, not_true_eq_false, inputs,
      restoreInputs_eq_revertAll]
    rfl

/-- The loops of `DisconnectBlock` take back the log of the block. -/
theorem disconnectTransactions_eq_revertAll {done : List (CTransaction × CTxUndo)}
    {given : List (CTransaction × Option CTxUndo)}
    (fits : List.Forall₂ (fun entry pair => pair.1 = entry.1 ∧
      (entry.1.isCoinBase = false → entry.2.vprevout.length = entry.1.vin.length ∧
        pair.2 = some entry.2.readBack)) done given) (t : Disconnecting) :
    disconnectTransactions nHeight given t =
      .ok () (revertAll revert t (done.flatMap fun (tx, txundo) => coinLog tx nHeight txundo)) := by
  induction fits with
  | nil => rfl
  | @cons entry pair done given fit rest ih =>
    obtain ⟨tx, txundo⟩ := entry
    obtain ⟨_, given⟩ := pair
    obtain ⟨rfl, undoFits⟩ := fit
    show EStateM.bind _ _ t = _
    rw [List.flatMap_cons, revertAll_append, EStateM.bind, ih]
    exact disconnectTransaction_eq_revertAll (fun notBase => (undoFits notBase).1)
      (fun notBase => (undoFits notBase).2) _

end Esbcoin
