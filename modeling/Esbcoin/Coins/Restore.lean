import Esbcoin.Coins.UpdateCoins
import Esbcoin.Lib.UndoLog

/-!
# When undo data gives a view back

A block changes the view one step at a time: it spends an output, or it puts the outputs of a
transaction in. The steps of a block make an undo log (`Lib/UndoLog`): `SurvivesUndo` says which
steps are taken back rightly, `Restored` what a view that is taken back rightly so far looks like,
and `Broken` what it looks like once a step was not.
-/

namespace Esbcoin

open UndoLog CTxOut FlatCoins List

/-! ## Putting an output back -/

namespace CCoins

/-- What is spent in the record is the null output. -/
def SpentNull (coins : CCoins) : Prop := ∀ out ∈ coins.vout, out.isNull = true → out = null

/-- The record with one output less. -/
def without (coins : CCoins) (n : UInt32) : CCoins :=
  cleanup { coins with vout := coins.vout.set n.toNat null }

/-- The undo record of a spend. -/
def undoOf (coins : CCoins) (n : UInt32) (txout : CTxOut) : CTxInUndo :=
  if (coins.without n).vout = [] then
    { txout, nHeight := (coins.nHeight % 2 ^ 32).toNat, fCoinBase := coins.fCoinBase
      fCoinStake := coins.fCoinStake, nVersion := coins.nVersion }
  else { txout }

theorem spend_eq_some {coins spent : CCoins} {out : COutPoint} {undo : CTxInUndo}
    (h : coins.spend out = some (spent, undo)) :
    ∃ txout, coins.vout[out.n.toNat]? = some txout ∧ txout.isNull = false ∧
      spent = coins.without out.n ∧ undo = coins.undoOf out.n txout := by
  unfold spend at h
  split at h
  · cases h
  rename_i txout slot
  cases unspent : txout.isNull with
  | true => simp [unspent] at h
  | false =>
    simp only [unspent, Bool.false_eq_true, ↓reduceIte, Option.some.injEq, Prod.mk.injEq] at h
    exact ⟨txout, slot, unspent, h.1.symm, h.2.symm⟩

theorem cleaned_without (coins : CCoins) (n : UInt32) : (coins.without n).Cleaned :=
  cleaned_cleanup _

theorem spentNull_cleanup {coins : CCoins} (h : coins.SpentNull) : coins.cleanup.SpentNull := by
  intro out member
  exact h out ((List.rdropWhile_prefix _ _).subset member)

theorem spentNull_without {coins : CCoins} (h : coins.SpentNull) (n : UInt32) :
    (coins.without n).SpentNull := by
  apply spentNull_cleanup
  intro out member spent
  rcases mem_or_eq_of_mem_set member with member | rfl
  · exact h out member spent
  · rfl

theorem spentNull_fromTx {tx : CTransaction} (h : ∀ out ∈ tx.vout, out.isNull = false)
    (nHeight : Int) : (fromTx tx nHeight).SpentNull := by
  apply spentNull_cleanup
  intro out member spent
  obtain ⟨txout, original, rfl⟩ := mem_map.mp member
  by_cases unspendable : txout.scriptPubKey.isUnspendable = true
  · rw [if_pos unspendable]
  · rw [if_neg unspendable, h txout original] at spent
    cases spent

/-- Putting the spent output back, in a list grown with null outputs, gives the list. -/
theorem restore_vout {vout : List CTxOut} {n : Nat} {txout : CTxOut}
    (cleaned : vout.rdropWhile isNull = vout)
    (spentNull : ∀ out ∈ vout, out.isNull = true → out = null)
    (slot : vout[n]? = some txout) {rest : List CTxOut}
    (left : rest = (vout.set n null).rdropWhile isNull) :
    (rest ++ List.replicate (n + 1 - rest.length) null).set n txout = vout := by
  rcases vout.eq_nil_or_concat with rfl | ⟨init, last, rfl⟩
  · simp at slot
  rw [concat_eq_append] at *
  have lastUnspent : ¬ last.isNull = true := by
    have := rdropWhile_eq_self_iff.mp cleaned (by simp)
    simpa using this
  rcases Nat.lt_trichotomy n init.length with inside | atEnd | outside
  · have kept : rest = init.set n null ++ [last] := by
      rw [left, set_append_left _ _ inside, rdropWhile_concat_neg _ _ _ lastUnspent]
    have value : init[n] = txout := by
      rw [List.getElem?_append_left inside, List.getElem?_eq_getElem inside] at slot
      exact Option.some.inj slot
    have none : n + 1 - rest.length = 0 := by
      rw [kept]
      simp only [length_append, length_set, length_singleton]
      omega
    rw [none, replicate_zero, append_nil, kept,
      set_append_left _ _ (by simpa using inside), set_set, ← value,
      set_getElem_self]
  · subst atEnd
    have value : last = txout := by simpa using slot
    have kept : rest = init.rdropWhile isNull := by
      rw [left, set_append_right _ _ (Nat.le_refl _), Nat.sub_self]
      exact rdropWhile_concat_pos _ _ _ rfl
    obtain ⟨count, dropped⟩ : ∃ count, init.rtakeWhile isNull =
        List.replicate count null := by
      refine ⟨_, eq_replicate_of_mem fun out member => ?_⟩
      exact spentNull out
        (mem_append_left _ ((rtakeWhile_suffix _ _).subset member))
        (mem_rtakeWhile_imp member)
    have whole : init = rest ++ List.replicate count null := by
      rw [kept, ← dropped, rdropWhile_append_rtakeWhile]
    have grown : init.length + 1 - rest.length = count + 1 := by
      have := congrArg List.length whole
      simp only [length_append, length_replicate] at this
      omega
    rw [grown, replicate_succ', ← append_assoc, ← whole,
      set_append_right _ _ (Nat.le_refl _), Nat.sub_self, ← value]
    rfl
  · rw [List.getElem?_eq_none (by simp; omega)] at slot
    cases slot

/-- Without a height the output joins the record that is there. -/
theorem restoreOutput_of_no_height (current : CCoins) (out : COutPoint) {undo : CTxInUndo}
    (h : undo.nHeight = 0) :
    restoreOutput current out undo =
      ({ current with
          vout := (current.vout ++
            List.replicate (out.n.toNat + 1 - current.vout.length) null).set
              out.n.toNat undo.txout },
        !current.isPruned && !current.isAvailable out.n) := by
  unfold restoreOutput
  rw [if_neg (by simpa using h)]

/-- With a height the record is made anew, without the mark of a coinstake. -/
theorem restoreOutput_of_height (current : CCoins) (out : COutPoint) {undo : CTxInUndo}
    (h : undo.nHeight ≠ 0) :
    restoreOutput current out undo =
      ({ fCoinBase := undo.fCoinBase, fCoinStake := false
         vout := (List.replicate (out.n.toNat + 1) null).set out.n.toNat undo.txout
         nHeight := (undo.nHeight : Int).bmod (2 ^ 32), nVersion := undo.nVersion },
        current.isPruned) := by
  unfold restoreOutput
  rw [if_pos h]
  simp [clear, isAvailable]

end CCoins

namespace CCoins

variable {coins current : CCoins} {n : UInt32} {txout : CTxOut}

theorem isPruned_congr (h : current.vout = coins.vout) : current.isPruned = coins.isPruned := by
  rw [isPruned, h, isPruned]

theorem Cleaned.congr (cleaned : coins.Cleaned) (h : current.vout = coins.vout) :
    current.Cleaned := by
  have cleanedVout : coins.vout.rdropWhile isNull = coins.vout :=
    congrArg CCoins.vout cleaned
  unfold Cleaned cleanup
  rw [h, cleanedVout, ← h]

theorem Cleaned.visible_cleanup (cleaned : coins.Cleaned) (unspent : coins.isPruned = false) :
    coins.cleanup.visible = some coins := by
  rw [cleaned]
  exact visible_eq_some.mpr ⟨unspent, rfl⟩

theorem isPruned_without : (coins.without n).isPruned = true ↔ (coins.without n).vout = [] :=
  (cleaned_without coins n).isPruned_iff

theorem isAvailable_without (h : current.vout = (coins.without n).vout) :
    current.isAvailable n = false := by
  have same : current.isAvailable n = (coins.without n).isAvailable n := by
    rw [isAvailable, h, isAvailable]
  rw [same, without, isAvailable_cleanup, isAvailable]
  by_cases inside : n.toNat < coins.vout.length
  · simp [inside, isNull, null]
  · rw [List.getElem?_eq_none (by simpa using inside)]

/-- Undo data of an output that was not the last one of its record. -/
theorem unserialize_undoOf_of_kept (kept : (coins.without n).vout ≠ []) :
    (coins.undoOf n txout).serialize.unserialize = some { txout } := by
  rw [undoOf, if_neg kept, unserialize_serialize_of_zero rfl]

/-- Undo data of the last output of a record holds its height, if that can be told. -/
theorem unserialize_undoOf_of_last (last : (coins.without n).vout = []) {read : CTxInUndo}
    (h : (coins.undoOf n txout).serialize.unserialize = some read) :
    read = { txout, nHeight := (coins.nHeight % 2 ^ 30).toNat, fCoinBase := coins.fCoinBase
             fCoinStake := coins.fCoinStake
             nVersion := if coins.nHeight % 2 ^ 32 = 0 then 0
               else storedVersion coins.nVersion } ∧
      (coins.nHeight % 2 ^ 30 = 0 → coins.nHeight % 2 ^ 32 = 0) := by
  rw [undoOf, if_pos last] at h
  by_cases zero : coins.nHeight % 2 ^ 32 = 0
  · have nothing : (coins.nHeight % 2 ^ 32).toNat = 0 := by omega
    rw [unserialize_serialize_of_zero nothing] at h
    obtain rfl := Option.some.inj h
    refine ⟨?_, fun _ => zero⟩
    rw [if_pos zero]
    congr 1
    show (coins.nHeight % 2 ^ 32).toNat = (coins.nHeight % 2 ^ 30).toNat
    omega
  by_cases lost : coins.nHeight % 2 ^ 30 = 0
  · rw [unserialize_serialize_of_lost_height] at h
    · cases h
    · show 0 < (coins.nHeight % 2 ^ 32).toNat
      omega
    · show (coins.nHeight % 2 ^ 32).toNat % 2 ^ 30 = 0
      omega
  rw [unserialize_serialize] at h
  · obtain rfl := Option.some.inj h
    refine ⟨?_, fun zero' => absurd zero' lost⟩
    rw [if_neg zero]
    congr 1
    show (coins.nHeight % 2 ^ 32).toNat % 2 ^ 30 = _
    omega
  · show (coins.nHeight % 2 ^ 32).toNat % 2 ^ 30 ≠ 0
    omega

/-- An output that was not the last one goes back into what was left of the record. -/
theorem restoreOutput_of_kept {out : COutPoint} (cleaned : coins.Cleaned)
    (spentNull : coins.SpentNull) (slot : coins.vout[out.n.toNat]? = some txout)
    (kept : (coins.without out.n).vout ≠ [])
    (same : current.vout = (coins.without out.n).vout) :
    restoreOutput current out { txout } = ({ current with vout := coins.vout }, true) := by
  have left : current.vout =
      (coins.vout.set out.n.toNat null).rdropWhile isNull := same
  rw [restoreOutput_of_no_height current out rfl,
    restore_vout (congrArg CCoins.vout cleaned) spentNull slot left, isAvailable_without same,
    isPruned_congr same]
  have unspent : (coins.without out.n).isPruned = false := by
    rw [← Bool.not_eq_true, isPruned_without]
    exact kept
  simp [unspent]

/-- The last output makes the record anew. -/
theorem restoreOutput_of_last {out : COutPoint} {undo : CTxInUndo} (cleaned : coins.Cleaned)
    (spentNull : coins.SpentNull) (slot : coins.vout[out.n.toNat]? = some undo.txout)
    (last : (coins.without out.n).vout = []) (height : undo.nHeight ≠ 0) :
    restoreOutput current out undo =
      ({ fCoinBase := undo.fCoinBase, fCoinStake := false, vout := coins.vout
         nHeight := (undo.nHeight : Int).bmod (2 ^ 32), nVersion := undo.nVersion },
        current.isPruned) := by
  have left : [] = (coins.vout.set out.n.toNat null).rdropWhile isNull := last.symm
  have restored := restore_vout (congrArg CCoins.vout cleaned) spentNull slot left
  rw [nil_append, length_nil, Nat.sub_zero] at restored
  rw [restoreOutput_of_height current out height, restored]

theorem isUnspendable_null : null.scriptPubKey.isUnspendable = false := by decide

/-- A record with the outputs of a transaction's has nothing left to clear. -/
theorem clearUnspendable_of_fromTx {tx : CTransaction} {nHeight : Int} {coins : CCoins}
    (h : coins.vout = (fromTx tx nHeight).vout) : coins.clearUnspendable = coins := by
  have settled : ∀ out ∈ coins.vout,
      (if out.scriptPubKey.isUnspendable then null else out) = out := by
    intro out member
    rw [h] at member
    have kept := (List.rdropWhile_prefix _ _).subset member
    obtain ⟨txout, -, rfl⟩ := mem_map.mp kept
    by_cases unspendable : txout.scriptPubKey.isUnspendable = true
    · rw [if_pos unspendable]
      simp [isUnspendable_null]
    · rw [if_neg unspendable, if_neg unspendable]
  unfold clearUnspendable
  rw [map_congr_left settled, map_id']
  exact (cleaned_cleanup _).congr h

theorem cleaned_fromTx (tx : CTransaction) (nHeight : Int) : (fromTx tx nHeight).Cleaned :=
  cleaned_cleanup _

end CCoins

/-! ## Steps -/

/-- A step of a block on the view. -/
inductive CoinStep where
  | spend (out : COutPoint)
  | create (tx : CTransaction) (nHeight : Int)

namespace CoinStep

/-- Do a step; a spend leaves its undo data. -/
def exec (view : FlatCoins) : CoinStep → Option (FlatCoins × Option CTxInUndo)
  | spend out =>
    ((view.record out.hash).spend out).map fun (coins, undo) =>
      (view.put out.hash coins, some undo)
  | create tx nHeight => some (view.put tx.getHash (CCoins.fromTx tx nHeight), none)

/-- Take a step back with the undo data that is read from disk. -/
def revert (t : Disconnecting) : CoinStep → Option CTxInUndo → Disconnecting
  | spend out, some undo => t.restoreInput out (undo.serialize.unserialize.getD undo)
  | spend _, none => t
  | create tx nHeight, _ => t.removeTx tx nHeight

/-- The undo data can be read back, and no output that is put in looks spent. -/
def Readable : CoinStep → Option CTxInUndo → Prop
  | spend _, undo => ∃ u, undo = some u ∧ u.serialize.unserialize.isSome = true
  | create tx _, _ => ∀ out ∈ tx.vout, out.isNull = false

/-- The transactions that were put in. -/
def created (steps : List CoinStep) : List UInt256 :=
  steps.filterMap fun step =>
    match step with
    | create tx _ => some tx.getHash
    | spend _ => none

/-- The step is taken back rightly, after the steps `done`: a spend that leaves outputs always is,
the last one as far as the undo record has height, marks and version, and outputs are if they
replaced no unspent record. -/
def SurvivesUndo (done : List CoinStep) (view : FlatCoins) : CoinStep → Prop
  | spend out =>
    ∀ coins, view.get out.hash = some coins → (coins.without out.n).vout = [] →
      coins.fCoinStake = false ∧ 0 < coins.nHeight ∧ coins.nHeight < 2 ^ 30 ∧
        (0 ≤ coins.nVersion ∨ out.hash ∈ created done)
  | create tx _ => view.get tx.getHash = none

instance (done : List CoinStep) (view : FlatCoins) :
    ∀ step, Decidable (SurvivesUndo done view step)
  | spend out =>
    match found : view.get out.hash with
    | none => isTrue (by simp [SurvivesUndo, found])
    | some coins =>
      decidable_of_iff ((coins.without out.n).vout = [] →
        coins.fCoinStake = false ∧ 0 < coins.nHeight ∧ coins.nHeight < 2 ^ 30 ∧
          (0 ≤ coins.nVersion ∨ out.hash ∈ created done)) (by simp [SurvivesUndo, found])
  | create tx _ => inferInstanceAs (Decidable (view.get tx.getHash = none))

end CoinStep

/-- What is spent in a record of the view is the null output. -/
def FlatCoins.SpentNull (view : FlatCoins) : Prop :=
  ∀ txid coins, view.get txid = some coins → coins.SpentNull

/-- The record that is found is the one that should be there, or differs from it in a version
below 0 only and belongs to a transaction that was put in before. -/
def NearRecord (done : List CoinStep) (txid : UInt256) (record found : Option CCoins) : Prop :=
  found = record ∨ ∃ coins nVersion, record = some coins ∧ coins.nVersion < 0 ∧
    txid ∈ CoinStep.created done ∧ found = some { coins with nVersion }

/-- What is taken back so far is clean and, but for such versions, what the view was. -/
def Restored (done : List CoinStep) (view : FlatCoins) (t : Disconnecting) : Prop :=
  t.fClean = true ∧ ∀ txid, NearRecord done txid (view.get txid) (t.coins.get txid)

/-- What is taken back so far is not clean, or lacks a record, or has one with its outputs but
another mark, height or version (the version of a record that was there before). -/
def Broken (done : List CoinStep) (view : FlatCoins) (t : Disconnecting) : Prop :=
  t.fClean = false ∨ ∃ txid coins, view.get txid = some coins ∧
    (t.coins.get txid = none ∨ ∃ coins', t.coins.get txid = some coins' ∧
      coins'.vout = coins.vout ∧
      (coins'.fCoinStake ≠ coins.fCoinStake ∨ coins'.nHeight ≠ coins.nHeight ∨
        (coins'.nVersion ≠ coins.nVersion ∧ txid ∉ CoinStep.created done)))

/-! ## What one step preserves -/

section Steps

open CoinStep

variable {done : List CoinStep} {view view' : FlatCoins} {t : Disconnecting}
variable {out : COutPoint} {tx : CTransaction} {nHeight : Int} {undo : Option CTxInUndo}

theorem created_append_spend : created (done ++ [spend out]) = created done := by
  simp [created]

theorem mem_created_append_create {txid : UInt256} :
    txid ∈ created (done ++ [create tx nHeight]) ↔ txid ∈ created done ∨ txid = tx.getHash := by
  simp [created]

/-- A spend finds its output, takes it from the record and notes it. -/
theorem exec_spend (h : exec view (spend out) = some (view', undo)) :
    ∃ coins txout, view.get out.hash = some coins ∧
      coins.vout[out.n.toNat]? = some txout ∧
      view' = view.put out.hash (coins.without out.n) ∧
      undo = some (coins.undoOf out.n txout) := by
  simp only [exec, Option.map_eq_some_iff, Prod.mk.injEq, Prod.exists] at h
  obtain ⟨spent, u, spends, rfl, rfl⟩ := h
  obtain ⟨txout, slot, -, rfl, rfl⟩ := CCoins.spend_eq_some spends
  cases found : view.get out.hash with
  | none =>
    simp [FlatCoins.record, found, CCoins.clear] at slot
  | some coins =>
    rw [record_of_get found] at slot ⊢
    exact ⟨coins, txout, rfl, slot, rfl, rfl⟩

theorem get_put_without (coins : CCoins) (n : UInt32) (txid key : UInt256) :
    (view.put txid (coins.without n)).get key =
      if key = txid then
        (if (coins.without n).vout = [] then none else some (coins.without n))
      else view.get key := by
  rw [get_put]
  by_cases equal : key = txid
  · rw [if_pos equal, if_pos equal, CCoins.cleaned_without]
    by_cases last : (coins.without n).vout = []
    · rw [if_pos last, CCoins.visible_eq_none, CCoins.isPruned_without]
      exact last
    rw [if_neg last, CCoins.visible_eq_some]
    refine ⟨?_, rfl⟩
    rw [← Bool.not_eq_true, CCoins.isPruned_without]
    exact last
  · rw [if_neg equal, if_neg equal]

/-- Steps keep spent outputs null. -/
theorem spentNull_exec {step : CoinStep} (spentNull : view.SpentNull) (readable : Readable step undo)
    (h : exec view step = some (view', undo)) : view'.SpentNull := by
  intro txid coins found
  cases step with
  | spend out =>
    obtain ⟨old, txout, here, slot, rfl, -⟩ := exec_spend h
    rw [get_put_without] at found
    split at found
    · split at found
      · cases found
      · obtain rfl := Option.some.inj found
        exact CCoins.spentNull_without (spentNull _ _ here) _
    · exact spentNull _ _ found
  | create tx nHeight =>
    obtain ⟨rfl, -⟩ := h
    rw [get_put] at found
    split at found
    · obtain ⟨-, rfl⟩ := CCoins.visible_eq_some.mp found
      exact CCoins.spentNull_cleanup (CCoins.spentNull_fromTx readable _)
    · exact spentNull _ _ found

theorem get_restoreInput (t : Disconnecting) (out : COutPoint) (read : CTxInUndo)
    (key : UInt256) :
    (t.restoreInput out read).coins.get key =
      if key = out.hash then
        (restoreOutput (t.coins.record out.hash) out read).1.cleanup.visible
      else t.coins.get key := rfl

theorem fClean_restoreInput (t : Disconnecting) (out : COutPoint) (read : CTxInUndo) :
    (t.restoreInput out read).fClean =
      (t.fClean && (restoreOutput (t.coins.record out.hash) out read).2) := rfl

/-- A restored record shows when it has the outputs of a record of a view. -/
theorem visible_of_vout {coins current : CCoins} (found : view.get out.hash = some coins)
    (same : current.vout = coins.vout) : current.cleanup.visible = some current :=
  ((view.cleaned found).congr same).visible_cleanup
    ((CCoins.isPruned_congr same).trans (view.unspent found))

/-- Putting back an output that was not the last one of its record. -/
theorem restoreInput_of_kept {coins current : CCoins} {txout : CTxOut}
    (spentNull : view.SpentNull) (found : view.get out.hash = some coins)
    (slot : coins.vout[out.n.toNat]? = some txout) (kept : (coins.without out.n).vout ≠ [])
    (here : t.coins.get out.hash = some current)
    (same : current.vout = (coins.without out.n).vout) :
    (t.restoreInput out { txout }).fClean = t.fClean ∧
      ∀ key, (t.restoreInput out { txout }).coins.get key =
        if key = out.hash then some { current with vout := coins.vout }
        else t.coins.get key := by
  have restored := CCoins.restoreOutput_of_kept (view.cleaned found) (spentNull _ _ found) slot
    kept same
  rw [fClean_restoreInput, record_of_get here, restored, Bool.and_true]
  refine ⟨rfl, fun key => ?_⟩
  rw [get_restoreInput, record_of_get here, restored]
  split
  · exact visible_of_vout found rfl
  · rfl

/-- Putting back the last output of a record, with a height. -/
theorem restoreInput_of_last {coins : CCoins} {read : CTxInUndo} (spentNull : view.SpentNull)
    (found : view.get out.hash = some coins)
    (slot : coins.vout[out.n.toNat]? = some read.txout) (last : (coins.without out.n).vout = [])
    (height : read.nHeight ≠ 0) (gone : t.coins.get out.hash = none) :
    (t.restoreInput out read).fClean = t.fClean ∧
      ∀ key, (t.restoreInput out read).coins.get key =
        if key = out.hash then
          some { fCoinBase := read.fCoinBase, fCoinStake := false, vout := coins.vout
                 nHeight := (read.nHeight : Int).bmod (2 ^ 32), nVersion := read.nVersion }
        else t.coins.get key := by
  have restored := @CCoins.restoreOutput_of_last _ (t.coins.record out.hash) _ _
    (view.cleaned found) (spentNull _ _ found) slot last height
  have pruned : (t.coins.record out.hash).isPruned = true := by
    simp [FlatCoins.record, gone]
  rw [fClean_restoreInput, restored, pruned, Bool.and_true]
  refine ⟨rfl, fun key => ?_⟩
  rw [get_restoreInput, restored]
  split
  · exact visible_of_vout found rfl
  · rfl

theorem revert_spend {u : CTxInUndo} (readable : Readable (spend out) (some u)) :
    ∃ read, u.serialize.unserialize = some read ∧
      ∀ t : Disconnecting, revert t (spend out) (some u) = t.restoreInput out read := by
  obtain ⟨_, equal, isSome⟩ := readable
  obtain rfl := Option.some.inj equal
  obtain ⟨read, reads⟩ := Option.isSome_iff_exists.mp isSome
  exact ⟨read, reads, fun t => by rw [revert, reads, Option.getD_some]⟩

theorem nearRecord_elsewhere {coins : CCoins}
    (near : ∀ key, NearRecord done key
      ((view.put out.hash (coins.without out.n)).get key) (t.coins.get key))
    {key : UInt256} (apart : key ≠ out.hash) :
    NearRecord done key (view.get key) (t.coins.get key) := by
  have here := near key
  rwa [get_put_without, if_neg apart] at here

theorem nearRecord_here {coins : CCoins}
    (near : ∀ key, NearRecord done key
      ((view.put out.hash (coins.without out.n)).get key) (t.coins.get key)) :
    NearRecord done out.hash
      (if (coins.without out.n).vout = [] then none else some (coins.without out.n))
      (t.coins.get out.hash) := by
  have here := near out.hash
  rwa [get_put_without, if_pos rfl] at here

theorem gone_of_nearRecord {txid : UInt256} {found : Option CCoins}
    (near : NearRecord done txid none found) : found = none := by
  rcases near with gone | ⟨_, _, impossible, -⟩
  · exact gone
  · cases impossible

/-- A height of 30 bits read back as an `int`. -/
theorem bmod_toNat_emod (nHeight : Int) :
    (((nHeight % 2 ^ 30).toNat : Nat) : Int).bmod (2 ^ 32) = nHeight % 2 ^ 30 := by
  rw [Int.toNat_of_nonneg (by omega)]
  exact Int.bmod_eq_of_le_mul_two (by omega) (by omega)

/-- A good spend is taken back rightly. -/
theorem restored_spend (spentNull : view.SpentNull) (readable : Readable (spend out) undo)
    (h : exec view (spend out) = some (view', undo)) (good : SurvivesUndo done view (spend out))
    (restored : Restored (done ++ [spend out]) view' t) :
    Restored done view (revert t (spend out) undo) := by
  obtain ⟨coins, txout, found, slot, rfl, rfl⟩ := exec_spend h
  obtain ⟨read, reads, reverts⟩ := revert_spend readable
  obtain ⟨clean, near⟩ := restored
  have near' : ∀ key, NearRecord done key
      ((view.put out.hash (coins.without out.n)).get key) (t.coins.get key) := by
    intro key
    have here := near key
    rwa [NearRecord, created_append_spend] at here
  have here := nearRecord_here near'
  rw [reverts]
  by_cases last : (coins.without out.n).vout = []
  · obtain ⟨notStake, positive, small, version⟩ := good coins found last
    rw [if_pos last] at here
    obtain ⟨content, -⟩ := CCoins.unserialize_undoOf_of_last last reads
    have height : read.nHeight ≠ 0 := by
      rw [content]
      show (coins.nHeight % 2 ^ 30).toNat ≠ 0
      omega
    have slot' : coins.vout[out.n.toNat]? = some read.txout := by rw [slot, content]
    obtain ⟨fClean, gets⟩ := restoreInput_of_last spentNull found slot' last height
      (gone_of_nearRecord here)
    subst content
    refine ⟨fClean.trans clean, fun key => ?_⟩
    rw [gets]
    by_cases equal : key = out.hash
    · subst equal
      have back := bmod_toNat_emod coins.nHeight
      rw [Int.emod_eq_of_lt (Int.le_of_lt positive) small] at back
      have kept : ¬ coins.nHeight % 2 ^ 32 = 0 := by omega
      rw [if_pos rfl, found]
      rw [Int.emod_eq_of_lt (Int.le_of_lt positive) small]
      simp only [back, if_neg kept, ← notStake]
      by_cases negative : coins.nVersion < 0
      · refine Or.inr ⟨coins, storedVersion coins.nVersion, rfl, negative, ?_, rfl⟩
        rcases version with nonneg | member
        · omega
        · exact member
      · refine Or.inl ?_
        rw [storedVersion, if_neg negative]
    · rw [if_neg equal]
      exact nearRecord_elsewhere near' equal
  · rw [if_neg last] at here
    rw [CCoins.unserialize_undoOf_of_kept last] at reads
    obtain rfl := Option.some.inj reads
    rcases here with here | ⟨_, nVersion, equal, negative, member, here⟩
    · obtain ⟨fClean, gets⟩ := restoreInput_of_kept spentNull found slot last here rfl
      refine ⟨fClean.trans clean, fun key => ?_⟩
      rw [gets]
      by_cases equal : key = out.hash
      · subst equal
        rw [if_pos rfl, found]
        exact Or.inl rfl
      · rw [if_neg equal]
        exact nearRecord_elsewhere near' equal
    obtain rfl := Option.some.inj equal
    obtain ⟨fClean, gets⟩ := restoreInput_of_kept spentNull found slot last here rfl
    refine ⟨fClean.trans clean, fun key => ?_⟩
    rw [gets]
    by_cases equal : key = out.hash
    · subst equal
      rw [if_pos rfl, found]
      exact Or.inr ⟨coins, nVersion, rfl, negative, member, rfl⟩
    · rw [if_neg equal]
      exact nearRecord_elsewhere near' equal

/-- A spend that was not good breaks the record. -/
theorem broken_of_bad_spend (spentNull : view.SpentNull) (readable : Readable (spend out) undo)
    (h : exec view (spend out) = some (view', undo))
    (bad : ¬ SurvivesUndo done view (spend out))
    (restored : Restored (done ++ [spend out]) view' t) :
    Broken done view (revert t (spend out) undo) := by
  obtain ⟨coins, txout, found, slot, rfl, rfl⟩ := exec_spend h
  obtain ⟨read, reads, reverts⟩ := revert_spend readable
  obtain ⟨last, notGood⟩ : (coins.without out.n).vout = [] ∧
      ¬ (coins.fCoinStake = false ∧ 0 < coins.nHeight ∧ coins.nHeight < 2 ^ 30 ∧
        (0 ≤ coins.nVersion ∨ out.hash ∈ created done)) := by
    by_contra good
    apply bad
    intro coins' found' last
    obtain rfl := Option.some.inj (found.symm.trans found')
    by_contra notGood
    exact good ⟨last, notGood⟩
  have here := restored.2 out.hash
  rw [get_put_without, if_pos rfl, if_pos last] at here
  have gone := gone_of_nearRecord here
  obtain ⟨content, lost⟩ := CCoins.unserialize_undoOf_of_last last reads
  rw [reverts]
  by_cases zero : coins.nHeight % 2 ^ 30 = 0
  · have height : read.nHeight = 0 := by
      rw [content]
      show (coins.nHeight % 2 ^ 30).toNat = 0
      omega
    left
    rw [fClean_restoreInput, CCoins.restoreOutput_of_no_height _ _ height]
    simp [FlatCoins.record, gone]
  have height : read.nHeight ≠ 0 := by
    rw [content]
    show (coins.nHeight % 2 ^ 30).toNat ≠ 0
    omega
  have slot' : coins.vout[out.n.toNat]? = some read.txout := by rw [slot, content]
  obtain ⟨-, gets⟩ := restoreInput_of_last spentNull found slot' last height gone
  subst content
  have back := bmod_toNat_emod coins.nHeight
  have kept : ¬ coins.nHeight % 2 ^ 32 = 0 := by omega
  refine Or.inr ⟨out.hash, coins, found, Or.inr ⟨_, (gets _).trans (if_pos rfl), rfl, ?_⟩⟩
  simp only [back, if_neg kept]
  by_cases stake : coins.fCoinStake = true
  · exact Or.inl (by simp [stake])
  by_cases sameHeight : coins.nHeight % 2 ^ 30 = coins.nHeight
  · have version : ¬ (0 ≤ coins.nVersion ∨ out.hash ∈ created done) := fun version =>
      notGood ⟨by simpa using stake, by omega, by omega, version⟩
    push Not at version
    have nonneg := storedVersion_nonneg coins.nVersion
    exact Or.inr (Or.inr ⟨by omega, version.2⟩)
  · exact Or.inr (Or.inl sameHeight)

/-- Taking back a spend mends nothing. -/
theorem broken_spend (spentNull : view.SpentNull) (readable : Readable (spend out) undo)
    (h : exec view (spend out) = some (view', undo))
    (broken : Broken (done ++ [spend out]) view' t) :
    Broken done view (revert t (spend out) undo) := by
  obtain ⟨coins, txout, found, slot, rfl, rfl⟩ := exec_spend h
  obtain ⟨read, reads, reverts⟩ := revert_spend readable
  rw [reverts]
  rcases broken with unclean | ⟨txid, record, recordFound, differs⟩
  · left
    rw [fClean_restoreInput, unclean, Bool.false_and]
  rw [created_append_spend] at differs
  rw [get_put_without] at recordFound
  by_cases equal : txid = out.hash
  · subst equal
    by_cases last : (coins.without out.n).vout = []
    · rw [if_pos rfl, if_pos last] at recordFound
      cases recordFound
    rw [if_pos rfl, if_neg last] at recordFound
    obtain rfl := Option.some.inj recordFound
    rw [CCoins.unserialize_undoOf_of_kept last] at reads
    obtain rfl := Option.some.inj reads
    rcases differs with gone | ⟨current, here, same, differs⟩
    · left
      rw [fClean_restoreInput, CCoins.restoreOutput_of_no_height _ _ rfl]
      simp [FlatCoins.record, gone]
    · obtain ⟨-, gets⟩ := restoreInput_of_kept spentNull found slot last here same
      exact Or.inr ⟨out.hash, coins, found, Or.inr ⟨_, (gets _).trans (if_pos rfl), rfl, differs⟩⟩
  · rw [if_neg equal] at recordFound
    refine Or.inr ⟨txid, record, recordFound, ?_⟩
    rw [get_restoreInput, if_neg equal]
    exact differs

/-! ### The outputs of a transaction -/

theorem get_removeTx (t : Disconnecting) (tx : CTransaction) (nHeight : Int) (key : UInt256) :
    (t.removeTx tx nHeight).coins.get key =
      if key = tx.getHash then none else t.coins.get key := rfl

theorem fClean_removeTx (t : Disconnecting) (tx : CTransaction) (nHeight : Int) :
    (t.removeTx tx nHeight).fClean =
      (t.fClean && (removeOutputs (t.coins.record tx.getHash) tx nHeight).2) := rfl

/-- Outputs are removed cleanly when they are the transaction's, up to a version below 0. -/
theorem removeOutputs_of_same {outs : CCoins} (vout : outs.vout = (CCoins.fromTx tx nHeight).vout)
    (same : { outs with nVersion := (CCoins.fromTx tx nHeight).nVersion } =
      CCoins.fromTx tx nHeight)
    (version : outs.nVersion = (CCoins.fromTx tx nHeight).nVersion ∨
      (CCoins.fromTx tx nHeight).nVersion < 0) :
    (removeOutputs outs tx nHeight).2 = true := by
  unfold removeOutputs
  simp only [CCoins.clearUnspendable_of_fromTx vout]
  by_cases negative : (CCoins.fromTx tx nHeight).nVersion < 0
  · rw [if_pos negative, same]
    exact CCoins.equal_refl _
  rw [if_neg negative]
  rcases version with version | version
  · rw [← version] at same
    rw [← same]
    exact CCoins.equal_refl _
  · exact absurd version negative

theorem get_put_fromTx (view : FlatCoins) (tx : CTransaction) (nHeight : Int) :
    (view.put tx.getHash (CCoins.fromTx tx nHeight)).get tx.getHash =
      (CCoins.fromTx tx nHeight).visible := by
  rw [get_put, if_pos rfl, CCoins.cleaned_fromTx]

theorem removeOutputs_restored
    (near : NearRecord (done ++ [create tx nHeight]) tx.getHash
      (CCoins.fromTx tx nHeight).visible (t.coins.get tx.getHash)) :
    (removeOutputs (t.coins.record tx.getHash) tx nHeight).2 = true := by
  rcases near with found | ⟨coins, nVersion, record, negative, -, found⟩
  · cases pruned : (CCoins.fromTx tx nHeight).isPruned with
    | true =>
      rw [CCoins.visible_eq_none.mpr pruned] at found
      have empty : t.coins.record tx.getHash = CCoins.clear := by
        simp [FlatCoins.record, found]
      rw [empty]
      unfold removeOutputs
      simp only [CCoins.equal, pruned, Bool.and_true, Bool.or_eq_true]
      left
      split <;> rfl
    | false =>
      rw [CCoins.visible_eq_some.mpr ⟨pruned, rfl⟩] at found
      rw [record_of_get found]
      exact removeOutputs_of_same rfl rfl (Or.inl rfl)
  · obtain ⟨-, rfl⟩ := CCoins.visible_eq_some.mp record
    rw [record_of_get found]
    exact removeOutputs_of_same rfl rfl (Or.inr negative)

/-- Outputs put in where there was no record are taken out again rightly. -/
theorem restored_create (h : exec view (create tx nHeight) = some (view', undo))
    (good : SurvivesUndo done view (create tx nHeight))
    (restored : Restored (done ++ [create tx nHeight]) view' t) :
    Restored done view (revert t (create tx nHeight) undo) := by
  obtain ⟨rfl, -⟩ := h
  obtain ⟨clean, near⟩ := restored
  have here := near tx.getHash
  rw [get_put_fromTx] at here
  refine ⟨?_, fun key => ?_⟩
  · show (t.removeTx tx nHeight).fClean = true
    rw [fClean_removeTx, clean, removeOutputs_restored here, Bool.true_and]
  show NearRecord done key (view.get key) ((t.removeTx tx nHeight).coins.get key)
  rw [get_removeTx]
  by_cases equal : key = tx.getHash
  · rw [if_pos equal, equal]
    exact Or.inl good.symm
  have there := near key
  rw [get_put, if_neg equal] at there
  rw [if_neg equal]
  rcases there with same | ⟨coins, nVersion, record, negative, member, found⟩
  · exact Or.inl same
  · rw [mem_created_append_create] at member
    exact Or.inr ⟨coins, nVersion, record, negative, member.resolve_right equal, found⟩

/-- Outputs that replaced an unspent record leave nothing in its place. -/
theorem broken_of_bad_create (bad : ¬ SurvivesUndo done view (create tx nHeight)) :
    Broken done view (revert t (create tx nHeight) undo) := by
  obtain ⟨coins, found⟩ := Option.ne_none_iff_exists'.mp bad
  exact Or.inr ⟨tx.getHash, coins, found, Or.inl ((get_removeTx t tx nHeight _).trans (if_pos rfl))⟩

theorem removeOutputs_of_empty (unspent : (CCoins.fromTx tx nHeight).isPruned = false) :
    (removeOutputs CCoins.clear tx nHeight).2 = false := by
  have nonempty : (CCoins.fromTx tx nHeight).vout ≠ [] := by
    rw [← CCoins.cleaned_fromTx tx nHeight, ne_eq, CCoins.cleanup_vout_eq_nil, unspent]
    simp
  unfold removeOutputs
  simp only [CCoins.equal, unspent, Bool.and_false, Bool.false_or, beq_eq_false_iff_ne]
  intro same
  apply nonempty
  rw [← same]
  split <;> rfl

theorem removeOutputs_of_other {outs : CCoins}
    (unspent : (CCoins.fromTx tx nHeight).isPruned = false)
    (vout : outs.vout = (CCoins.fromTx tx nHeight).vout)
    (differs : outs.fCoinStake ≠ (CCoins.fromTx tx nHeight).fCoinStake ∨
      outs.nHeight ≠ (CCoins.fromTx tx nHeight).nHeight) :
    (removeOutputs outs tx nHeight).2 = false := by
  unfold removeOutputs
  simp only [CCoins.clearUnspendable_of_fromTx vout, CCoins.equal, unspent, Bool.and_false,
    Bool.false_or, beq_eq_false_iff_ne]
  intro same
  rcases differs with stake | height
  · apply stake
    rw [← same]
    split <;> rfl
  · apply height
    rw [← same]
    split <;> rfl

/-- Taking back a transaction's outputs mends nothing. -/
theorem broken_create (h : exec view (create tx nHeight) = some (view', undo))
    (broken : Broken (done ++ [create tx nHeight]) view' t) :
    Broken done view (revert t (create tx nHeight) undo) := by
  obtain ⟨rfl, -⟩ := h
  show Broken done view (t.removeTx tx nHeight)
  rcases broken with unclean | ⟨txid, record, recordFound, differs⟩
  · left
    rw [fClean_removeTx, unclean, Bool.false_and]
  by_cases equal : txid = tx.getHash
  · subst equal
    rw [get_put_fromTx] at recordFound
    obtain ⟨unspent, rfl⟩ := CCoins.visible_eq_some.mp recordFound
    left
    rw [fClean_removeTx]
    rcases differs with gone | ⟨current, here, same, differs⟩
    · have empty : t.coins.record tx.getHash = CCoins.clear := by
        simp [FlatCoins.record, gone]
      rw [empty, removeOutputs_of_empty unspent, Bool.and_false]
    have differs' : current.fCoinStake ≠ (CCoins.fromTx tx nHeight).fCoinStake ∨
        current.nHeight ≠ (CCoins.fromTx tx nHeight).nHeight := by
      rcases differs with stake | height | ⟨-, absent⟩
      · exact Or.inl stake
      · exact Or.inr height
      · exact absurd (mem_created_append_create.mpr (Or.inr rfl)) absent
    rw [record_of_get here, removeOutputs_of_other unspent same differs', Bool.and_false]
  · rw [get_put, if_neg equal] at recordFound
    refine Or.inr ⟨txid, record, recordFound, ?_⟩
    rw [get_removeTx, if_neg equal]
    rcases differs with gone | ⟨current, here, same, differs⟩
    · exact Or.inl gone
    refine Or.inr ⟨current, here, same, ?_⟩
    rcases differs with stake | height | ⟨version, absent⟩
    · exact Or.inl stake
    · exact Or.inr (Or.inl height)
    · refine Or.inr (Or.inr ⟨version, fun member => absent ?_⟩)
      exact mem_created_append_create.mpr (Or.inl member)

end Steps

/-! ## Whole logs -/

open CoinStep in
/-- Good spends leave undo data that can be read back. -/
theorem readable_of_allGood {view final : FlatCoins} {steps : List CoinStep}
    {log : List (CoinStep × Option CTxInUndo)} (hexec : execAll exec view steps = some (final, log))
    (good : AllGood exec SurvivesUndo [] view steps) :
    ∀ e ∈ log, ∀ out, e.1 = spend out → Readable e.1 e.2 := by
  apply log_of_allGood (P := fun step undo => ∀ out, step = spend out → Readable step undo) ?_
    hexec good
  rintro done view step view' undo h good out rfl
  obtain ⟨coins, txout, found, -, -, rfl⟩ := exec_spend h
  refine ⟨_, rfl, ?_⟩
  by_cases last : (coins.without out.n).vout = []
  · obtain ⟨-, positive, small, -⟩ := good coins found last
    rw [CCoins.undoOf, if_pos last, unserialize_serialize]
    · rfl
    · show (coins.nHeight % 2 ^ 32).toNat % 2 ^ 30 ≠ 0
      omega
  · rw [CCoins.unserialize_undoOf_of_kept last]
    rfl

open CoinStep in
/-- Reading the undo data of a whole block back gives the view the block started from, and a
clean outcome, exactly when every step survives. -/
theorem revertAll_restores_iff {view final : FlatCoins} {steps : List CoinStep}
    {log : List (CoinStep × Option CTxInUndo)} (spentNull : view.SpentNull)
    (hexec : execAll exec view steps = some (final, log))
    (readable : ∀ e ∈ log, Readable e.1 e.2) (mapStakeSpent : AssocMap COutPoint Int) :
    ((revertAll revert ⟨final, mapStakeSpent, true⟩ log).fClean = true ∧
      (revertAll revert ⟨final, mapStakeSpent, true⟩ log).coins = view) ↔
      AllGood exec SurvivesUndo [] view steps := by
  have inv : ∀ (view : FlatCoins) (step : CoinStep) (view' : FlatCoins) (undo : Option CTxInUndo),
      view.SpentNull → Readable step undo → exec view step = some (view', undo) →
      view'.SpentNull := fun _ _ _ _ spentNull readable h => spentNull_exec spentNull readable h
  have good : ∀ (done : List CoinStep) (view : FlatCoins) (step : CoinStep) (view' : FlatCoins)
      (undo : Option CTxInUndo) (t : Disconnecting), view.SpentNull → Readable step undo →
      exec view step = some (view', undo) → SurvivesUndo done view step →
      Restored (done ++ [step]) view' t → Restored done view (revert t step undo) := by
    intro done view step view' undo t spentNull readable h good restored
    cases step with
    | spend out => exact restored_spend spentNull readable h good restored
    | create tx nHeight => exact restored_create h good restored
  have atEnd : Restored ([] ++ steps) final ⟨final, mapStakeSpent, true⟩ :=
    ⟨rfl, fun _ => Or.inl rfl⟩
  constructor
  · rintro ⟨clean, same⟩
    by_contra notGood
    have broken : Broken [] view (revertAll revert ⟨final, mapStakeSpent, true⟩ log) := by
      refine revertAll_of_not_allGood inv good ?_ ?_ spentNull hexec readable notGood atEnd
      · intro done view step view' undo t spentNull readable h bad restored
        cases step with
        | spend out => exact broken_of_bad_spend spentNull readable h bad restored
        | create tx nHeight => exact broken_of_bad_create bad
      intro done view step view' undo t spentNull readable h broken
      cases step with
      | spend out => exact broken_spend spentNull readable h broken
      | create tx nHeight => exact broken_create h broken
    rcases broken with unclean | ⟨txid, coins, found, differs⟩
    · rw [clean] at unclean
      cases unclean
    rw [same] at differs
    rcases differs with gone | ⟨current, here, -, differs⟩
    · rw [found] at gone
      cases gone
    · obtain rfl := Option.some.inj (found.symm.trans here)
      simp at differs
  · intro allGood
    obtain ⟨clean, near⟩ := revertAll_of_allGood inv good spentNull hexec readable allGood atEnd
    refine ⟨clean, ext fun txid => ?_⟩
    rcases near txid with same | ⟨_, _, _, _, member, -⟩
    · exact same
    · simp [created] at member

end Esbcoin
