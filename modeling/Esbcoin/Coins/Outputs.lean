import Esbcoin.Coins.Unspent
import Esbcoin.Validation.ConnectBlock

namespace Esbcoin

/-- The unspent output at the place. -/
def CCoins.unspentOutput (coins : CCoins) (n : UInt32) : Option CTxOut :=
  if coins.isAvailable n then coins.vout[n.toNat]? else none

/-- The unspent output at an outpoint. -/
def FlatCoins.output (view : FlatCoins) (out : COutPoint) : Option CTxOut :=
  (view.get out.hash).bind fun coins => coins.unspentOutput out.n

section Records

variable {coins : CCoins} {n : UInt32} {txout : CTxOut}

theorem CCoins.unspentOutput_eq_some :
    coins.unspentOutput n = some txout ↔
      coins.vout[n.toNat]? = some txout ∧ txout.isNull = false := by
  unfold unspentOutput
  constructor
  · intro found
    split at found
    · rename_i available
      obtain ⟨here, slot, unspent⟩ := isAvailable_eq_true.mp available
      rw [slot] at found
      obtain rfl := Option.some.inj found
      exact ⟨slot, unspent⟩
    · cases found
  · rintro ⟨slot, unspent⟩
    rw [if_pos (isAvailable_eq_true.mpr ⟨txout, slot, unspent⟩), slot]

theorem CCoins.isSome_unspentOutput :
    (coins.unspentOutput n).isSome = coins.isAvailable n := by
  unfold unspentOutput
  cases available : coins.isAvailable n with
  | false => rw [if_neg Bool.false_ne_true, Option.isSome_none]
  | true =>
    obtain ⟨here, slot, -⟩ := isAvailable_eq_true.mp available
    rw [if_pos rfl, slot, Option.isSome_some]

/-- A record that is cleaned shows no output that it did not show. -/
theorem CCoins.unspentOutput_of_cleanup (found : coins.cleanup.unspentOutput n = some txout) :
    coins.unspentOutput n = some txout := by
  obtain ⟨slot, unspent⟩ := unspentOutput_eq_some.mp found
  obtain ⟨dropped, split, -⟩ := cleanup_vout_append coins
  refine unspentOutput_eq_some.mpr ⟨?_, unspent⟩
  rw [split, List.getElem?_append_left (List.getElem?_eq_some_iff.mp slot).1]
  exact slot

/-- The outputs a transaction makes are its own. -/
theorem CCoins.unspentOutput_of_fromTx {tx : CTransaction} {nHeight : Int}
    (found : (fromTx tx nHeight).unspentOutput n = some txout) :
    tx.vout[n.toNat]? = some txout := by
  obtain ⟨slot, unspent⟩ := unspentOutput_eq_some.mp (unspentOutput_of_cleanup found)
  simp only [List.getElem?_map, Option.map_eq_some_iff] at slot
  obtain ⟨made, at_, same⟩ := slot
  split at same
  · subst same
    cases unspent
  · rw [at_, same]

end Records

section Views

variable {view view' : FlatCoins} {out : COutPoint} {txout : CTxOut}

theorem FlatCoins.isSome_output (view : FlatCoins) (out : COutPoint) :
    (view.output out).isSome = view.isUnspent out := by
  unfold output isUnspent
  cases view.get out.hash with
  | none => rfl
  | some coins => exact CCoins.isSome_unspentOutput

theorem FlatCoins.getOutputFor_eq (view : FlatCoins) (txin : CTxIn) :
    view.getOutputFor txin = view.output txin.prevout := by
  unfold getOutputFor output
  cases view.get txin.prevout.hash with
  | none => rfl
  | some coins => rfl

theorem FlatCoins.haveInputs_iff {tx : CTransaction} (notBase : tx.isCoinBase = false) :
    view.haveInputs tx = true ↔ ∀ out ∈ tx.prevouts, view.isUnspent out = true := by
  unfold haveInputs CTransaction.prevouts isUnspent
  rw [notBase, Bool.false_or, List.all_eq_true]
  simp only [List.mem_map, forall_exists_index, and_imp, forall_apply_eq_imp_iff₂]
  refine forall_congr' fun txin => forall_congr' fun _ => ?_
  cases view.get txin.prevout.hash with
  | none => rfl
  | some coins => rfl

/-- An output that is shown behind a record was in the record, or is one of another transaction. -/
theorem FlatCoins.output_of_put {txid : UInt256} {coins : CCoins}
    (found : (view.put txid coins).output out = some txout) :
    (out.hash = txid ∧ coins.unspentOutput out.n = some txout) ∨
      (out.hash ≠ txid ∧ view.output out = some txout) := by
  unfold output at found
  rw [FlatCoins.get_put] at found
  by_cases equal : out.hash = txid
  · rw [if_pos equal] at found
    obtain ⟨visible, shown, found⟩ := Option.bind_eq_some_iff.mp found
    obtain ⟨-, rfl⟩ := CCoins.visible_eq_some.mp shown
    exact Or.inl ⟨equal, CCoins.unspentOutput_of_cleanup found⟩
  · rw [if_neg equal] at found
    exact Or.inr ⟨equal, found⟩

theorem FlatCoins.output_of_record
    (found : (view.record out.hash).unspentOutput out.n = some txout) :
    view.output out = some txout := by
  unfold record at found
  unfold output
  cases here : view.get out.hash with
  | none =>
    rw [here] at found
    cases found
  | some coins =>
    rw [here] at found
    exact found

/-- Spending shows no output that was not shown, and not the one that is spent. -/
theorem output_of_spend {coins : CCoins} {undo : CTxInUndo} {spent : COutPoint}
    (spends : (view.record spent.hash).spend spent = some (coins, undo))
    (found : (view.put spent.hash coins).output out = some txout) :
    view.output out = some txout ∧ out ≠ spent := by
  obtain ⟨-, -, -, rfl, -⟩ := CCoins.spend_eq_some spends
  rcases FlatCoins.output_of_put found with ⟨hash, here⟩ | ⟨other, there⟩
  · obtain ⟨slot, unspent⟩ := CCoins.unspentOutput_eq_some.mp
      (CCoins.unspentOutput_of_cleanup here)
    by_cases index : spent.n.toNat = out.n.toNat
    · exfalso
      rw [List.getElem?_set, if_pos index] at slot
      split at slot
      · obtain rfl := Option.some.inj slot
        cases unspent
      · cases slot
    rw [List.getElem?_set_ne index] at slot
    refine ⟨FlatCoins.output_of_record ?_, ?_⟩
    · rw [hash]
      exact CCoins.unspentOutput_eq_some.mpr ⟨slot, unspent⟩
    · rintro rfl
      exact index rfl
  · refine ⟨there, ?_⟩
    rintro rfl
    exact other rfl

theorem output_of_spendInputs {vin : List CTxIn} {vprevout : List CTxInUndo}
    (spends : spendInputs view vin = some (view', vprevout))
    (found : view'.output out = some txout) :
    view.output out = some txout ∧ out ∉ vin.map CTxIn.prevout := by
  induction vin generalizing view vprevout with
  | nil =>
    obtain ⟨rfl, -⟩ := Prod.mk.inj (Option.some.inj spends)
    exact ⟨found, List.not_mem_nil⟩
  | cons txin vin ih =>
    simp only [spendInputs] at spends
    split at spends
    · cases spends
    rename_i coins undo first
    split at spends
    · cases spends
    rename_i middle rest later
    obtain ⟨rfl, -⟩ := Prod.mk.inj (Option.some.inj spends)
    obtain ⟨before, unlisted⟩ := ih later
    obtain ⟨start, other⟩ := output_of_spend first before
    refine ⟨start, ?_⟩
    rw [List.map_cons, List.mem_cons]
    exact not_or.mpr ⟨other, unlisted⟩

/-- What is shown behind a transaction is one of its outputs, or was there and is not spent. -/
theorem output_of_updateCoins {tx : CTransaction} (notBase : tx.isCoinBase = false)
    {nHeight : Int} {txundo : CTxUndo}
    (updates : updateCoins tx view nHeight = some (view', txundo))
    (found : view'.output out = some txout) :
    (out.hash = tx.getHash ∧ tx.vout[out.n.toNat]? = some txout) ∨
      (out.hash ≠ tx.getHash ∧ view.output out = some txout ∧ out ∉ tx.prevouts) := by
  unfold updateCoins at updates
  rw [notBase, if_neg Bool.false_ne_true] at updates
  simp only [Option.map_eq_some_iff, Prod.mk.injEq, Prod.exists] at updates
  obtain ⟨spent, vprevout, spends, rfl, -⟩ := updates
  rcases FlatCoins.output_of_put found with ⟨hash, made⟩ | ⟨other, there⟩
  · exact Or.inl ⟨hash, CCoins.unspentOutput_of_fromTx made⟩
  · exact Or.inr ⟨other, output_of_spendInputs spends there⟩

end Views

/-! ## Outputs without a view -/

/-- The output an outpoint refers to, over a view and behind some transactions. -/
def referredOutput (tip : FlatCoins) (earlier : List CTransaction) (out : COutPoint) :
    Option CTxOut :=
  earlier.foldl (fun before tx =>
    if tx.getHash = out.hash then tx.vout[out.n.toNat]? else before) (tip.output out)

section OutputAt

variable {tip : FlatCoins} {earlier : List CTransaction} {out : COutPoint} {txout : CTxOut}

theorem referredOutput_snoc (tip : FlatCoins) (earlier : List CTransaction) (tx : CTransaction)
    (out : COutPoint) :
    referredOutput tip (earlier ++ [tx]) out =
      if tx.getHash = out.hash then tx.vout[out.n.toNat]? else referredOutput tip earlier out := by
  unfold referredOutput
  rw [List.foldl_append]
  rfl

/-- It is one of the view or of one of the transactions. -/
theorem mem_of_referredOutput (found : referredOutput tip earlier out = some txout) :
    tip.output out = some txout ∨
      ∃ tx ∈ earlier, tx.getHash = out.hash ∧ tx.vout[out.n.toNat]? = some txout := by
  induction earlier using List.reverseRecOn with
  | nil => exact Or.inl found
  | append_singleton earlier tx ih =>
    rw [referredOutput_snoc] at found
    by_cases equal : tx.getHash = out.hash
    · rw [if_pos equal] at found
      exact Or.inr ⟨tx, List.mem_append_right _ List.mem_cons_self, equal, found⟩
    rw [if_neg equal] at found
    rcases ih found with there | ⟨tx', member, rest⟩
    · exact Or.inl there
    · exact Or.inr ⟨tx', List.mem_append_left _ member, rest⟩

/-- Its transaction has coins in the view or is one of the transactions. -/
theorem source_of_referredOutput (found : referredOutput tip earlier out = some txout) :
    tip.get out.hash ≠ none ∨ out.hash ∈ earlier.map CTransaction.getHash := by
  rcases mem_of_referredOutput found with there | ⟨parent, before, hash, -⟩
  · refine Or.inl ?_
    intro absent
    unfold FlatCoins.output at there
    rw [absent] at there
    cases there
  · refine Or.inr ?_
    rw [← hash]
    exact List.mem_map_of_mem before

end OutputAt

end Esbcoin
