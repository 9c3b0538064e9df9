import Mathlib.Data.List.DropRight
import Esbcoin.Script
import Esbcoin.Undo

/-!
# The record of a transaction's unspent outputs

Rendering of `CCoins` (`src/coins.h:73-274`, `src/coins.cpp:36-60`). A spent output is one
that `IsNull`; `Cleanup` drops the spent outputs at the end.
-/

namespace Esbcoin

open List

/-- `CCoins` (`coins.h:73-88`); the default value is `CCoins()`, which `Clear` restores. -/
structure CCoins where
  fCoinBase : Bool := false
  fCoinStake : Bool := false
  vout : List CTxOut := []
  nHeight : Int := 0
  nVersion : Int := 0
deriving DecidableEq, Repr

namespace CCoins

/-- `CCoins::Clear` (`coins.h:106-113`). -/
def clear : CCoins := {}

/-- `CCoins::Cleanup` (`coins.h:119-125`). -/
def cleanup (coins : CCoins) : CCoins := { coins with vout := coins.vout.rdropWhile CTxOut.isNull }

/-- `CCoins::ClearUnspendable` (`coins.h:127-134`). -/
def clearUnspendable (coins : CCoins) : CCoins :=
  cleanup { coins with
    vout := coins.vout.map fun txout =>
      if txout.scriptPubKey.isUnspendable then CTxOut.null else txout }

/-- `CCoins::FromTx` (`coins.h:90-98`). -/
def fromTx (tx : CTransaction) (nHeightIn : Int) : CCoins :=
  clearUnspendable
    { fCoinBase := tx.isCoinBase, fCoinStake := tx.isCoinStake, vout := tx.vout
      nHeight := nHeightIn, nVersion := tx.nVersion }

/-- `CCoins::IsAvailable` (`coins.h:256-259`). -/
def isAvailable (coins : CCoins) (nPos : UInt32) : Bool :=
  match coins.vout[nPos.toNat]? with
  | some out => !out.isNull
  | none => false

/-- `CCoins::IsPruned` (`coins.h:263-269`). -/
def isPruned (coins : CCoins) : Bool := coins.vout.all CTxOut.isNull

/-- `CCoins::Spend` (`coins.cpp:36-52`): the spent record and the undo data, which holds the
metadata only if no output is left. `nHeight` is an `int` there and unsigned here. -/
def spend (coins : CCoins) (out : COutPoint) : Option (CCoins × CTxInUndo) :=
  match coins.vout[out.n.toNat]? with
  | none => none
  | some txout =>
    if txout.isNull then none
    else
      let spent := cleanup { coins with vout := coins.vout.set out.n.toNat CTxOut.null }
      some (spent,
        if spent.vout = [] then
          { txout, nHeight := (coins.nHeight % 2 ^ 32).toNat, fCoinBase := coins.fCoinBase
            fCoinStake := coins.fCoinStake, nVersion := coins.nVersion }
        else { txout })

/-- `operator==` of `CCoins` (`coins.h:145-156`). -/
def equal (a b : CCoins) : Bool := (a.isPruned && b.isPruned) || a == b

/-- No spent output stands at the end. -/
def Cleaned (coins : CCoins) : Prop := coins.cleanup = coins

/-- The record as a reader sees it: a fully spent one is absent. -/
def visible (coins : CCoins) : Option CCoins := if coins.isPruned then none else some coins

@[simp] theorem isPruned_clear : clear.isPruned = true := rfl

section

variable (coins : CCoins)
include coins

@[simp] theorem cleanup_fCoinBase : coins.cleanup.fCoinBase = coins.fCoinBase := rfl

@[simp] theorem cleanup_fCoinStake :
    coins.cleanup.fCoinStake = coins.fCoinStake := rfl

@[simp] theorem cleanup_nHeight : coins.cleanup.nHeight = coins.nHeight := rfl

@[simp] theorem cleanup_nVersion : coins.cleanup.nVersion = coins.nVersion := rfl

theorem cleaned_cleanup : coins.cleanup.Cleaned := by
  simp [Cleaned, cleanup, rdropWhile_idempotent]

/-- `Cleanup` keeps a beginning of the outputs and drops spent ones only. -/
theorem cleanup_vout_append :
    ∃ dropped : List CTxOut, coins.vout = coins.cleanup.vout ++ dropped ∧
      ∀ out ∈ dropped, out.isNull = true := by
  refine ⟨coins.vout.rtakeWhile CTxOut.isNull, ?_, ?_⟩
  · simp only [cleanup, List.rdropWhile, List.rtakeWhile]
    rw [← reverse_append, takeWhile_append_dropWhile, reverse_reverse]
  · intro out member
    exact mem_rtakeWhile_imp member

@[simp] theorem isPruned_cleanup : coins.cleanup.isPruned = coins.isPruned := by
  obtain ⟨dropped, split, spent⟩ := cleanup_vout_append coins
  have all : dropped.all CTxOut.isNull = true := all_eq_true.mpr spent
  rw [isPruned, isPruned, split, all_append, all, Bool.and_true]

theorem cleanup_vout_eq_nil :
    coins.cleanup.vout = [] ↔ coins.isPruned = true := by
  simp [cleanup, isPruned, rdropWhile_eq_nil_iff]

end

variable {coins : CCoins}

/-- A clean record is fully spent only when it has no output at all. -/
theorem Cleaned.isPruned_iff (h : coins.Cleaned) : coins.isPruned = true ↔ coins.vout = [] := by
  rw [← cleanup_vout_eq_nil, h]

theorem Cleaned.isPruned_eq (h : coins.Cleaned) : coins.isPruned = coins.vout.isEmpty := by
  rw [Bool.eq_iff_iff, h.isPruned_iff, List.isEmpty_iff]

theorem isAvailable_eq_true {nPos : UInt32} :
    coins.isAvailable nPos = true ↔
      ∃ out, coins.vout[nPos.toNat]? = some out ∧ out.isNull = false := by
  unfold isAvailable
  cases coins.vout[nPos.toNat]? <;> simp

@[simp] theorem isAvailable_cleanup (coins : CCoins) (nPos : UInt32) :
    coins.cleanup.isAvailable nPos = coins.isAvailable nPos := by
  obtain ⟨dropped, split, spent⟩ := cleanup_vout_append coins
  unfold isAvailable
  rw [split]
  by_cases inside : nPos.toNat < coins.cleanup.vout.length
  · rw [List.getElem?_append_left inside]
  rw [List.getElem?_append_right (by omega), List.getElem?_eq_none (by omega)]
  cases out : dropped[nPos.toNat - coins.cleanup.vout.length]? with
  | none => rfl
  | some txout => simp [spent txout (mem_of_getElem? out)]

theorem isPruned_of_isAvailable {nPos : UInt32} (h : coins.isAvailable nPos = true) :
    coins.isPruned = false := by
  obtain ⟨out, slot, unspent⟩ := isAvailable_eq_true.mp h
  rw [isPruned, all_eq_false]
  exact ⟨out, mem_of_getElem? slot, by simp [unspent]⟩

theorem isSome_spend (coins : CCoins) (out : COutPoint) :
    (coins.spend out).isSome = coins.isAvailable out.n := by
  unfold spend isAvailable
  cases coins.vout[out.n.toNat]? with
  | none => rfl
  | some txout => cases h : txout.isNull <;> simp [h]

theorem equal_refl (a : CCoins) : a.equal a = true := by simp [equal]

theorem visible_cleanup_of_equal {a b : CCoins} (h : a.equal b = true) :
    a.cleanup.visible = b.cleanup.visible := by
  simp only [equal, Bool.or_eq_true, Bool.and_eq_true, beq_iff_eq] at h
  rcases h with ⟨pruned, pruned'⟩ | same
  · simp [visible, pruned, pruned']
  · rw [same]

theorem visible_eq_some {coins' : CCoins} :
    coins.visible = some coins' ↔ coins.isPruned = false ∧ coins = coins' := by
  unfold visible
  cases coins.isPruned <;> simp

theorem visible_eq_none : coins.visible = none ↔ coins.isPruned = true := by
  unfold visible
  cases coins.isPruned <;> simp

/-- A record equals what a reader sees in its place. -/
theorem equal_getD_visible (coins : CCoins) : coins.equal (coins.visible.getD clear) = true := by
  unfold visible
  cases h : coins.isPruned
  · simp [equal_refl]
  · simp [equal, h]

end CCoins

end Esbcoin
