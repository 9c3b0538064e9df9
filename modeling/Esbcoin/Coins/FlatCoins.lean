import Esbcoin.Coins.CCoins

/-!
# The flat view

What a view of the unspent outputs is for: one map from transaction to record, in which
every record is clean and has an unspent output. `coins_cache_simulation_test`
(`src/test/coins_tests.cpp`) keeps such a map (`result`) beside the caches.
-/

namespace Esbcoin

/-- A map from transactions to their records. -/
structure FlatCoins where
  get : UInt256 → Option CCoins
  cleaned : ∀ {txid coins}, get txid = some coins → coins.Cleaned
  unspent : ∀ {txid coins}, get txid = some coins → coins.isPruned = false

namespace FlatCoins

@[ext] theorem ext {a b : FlatCoins} (h : ∀ txid, a.get txid = b.get txid) : a = b := by
  cases a
  cases b
  simp only [mk.injEq]
  exact funext h

/-- The map without records. -/
def empty : FlatCoins := ⟨fun _ => none, by simp, by simp⟩

/-- The record an edit starts from: a fresh one where there is none. -/
def record (view : FlatCoins) (txid : UInt256) : CCoins := (view.get txid).getD CCoins.clear

/-- Put the record `coins` under `txid`, cleaned, or nothing if it is fully spent. -/
def put (view : FlatCoins) (txid : UInt256) (coins : CCoins) : FlatCoins where
  get key := if key = txid then coins.cleanup.visible else view.get key
  cleaned {key coins'} h := by
    split at h
    · obtain ⟨-, rfl⟩ := CCoins.visible_eq_some.mp h
      exact CCoins.cleaned_cleanup coins
    · exact view.cleaned h
  unspent {key coins'} h := by
    split at h
    · obtain ⟨pruned, rfl⟩ := CCoins.visible_eq_some.mp h
      exact pruned
    · exact view.unspent h

/-- `ModifyCoins`: edit the record, then clean it. -/
def modifyCoins (view : FlatCoins) (txid : UInt256) (edit : CCoins → CCoins) : FlatCoins :=
  view.put txid (edit (view.record txid))

@[simp] theorem get_put (view : FlatCoins) (txid key : UInt256) (coins : CCoins) :
    (view.put txid coins).get key =
      if key = txid then coins.cleanup.visible else view.get key := rfl

theorem get_modifyCoins (view : FlatCoins) (txid key : UInt256) (edit : CCoins → CCoins) :
    (view.modifyCoins txid edit).get key =
      if key = txid then (edit (view.record txid)).cleanup.visible else view.get key := rfl

theorem record_of_get {view : FlatCoins} {txid : UInt256} {coins : CCoins}
    (h : view.get txid = some coins) : view.record txid = coins := by simp [record, h]

@[simp] theorem put_put (view : FlatCoins) (txid : UInt256) (coins coins' : CCoins) :
    (view.put txid coins).put txid coins' = view.put txid coins' := by
  ext1 key
  simp only [get_put]
  split <;> rfl

end FlatCoins

end Esbcoin
