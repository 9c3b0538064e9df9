import Esbcoin.Chain.BlockIndex
import Esbcoin.Coins.BlockSteps

/-!
# What a chain leaves unspent

One output through the steps of a chain.
-/

namespace Esbcoin

open UndoLog CoinStep CCoins

/-- The view has the output unspent. -/
def FlatCoins.isUnspent (view : FlatCoins) (out : COutPoint) : Bool :=
  (view.get out.hash).any (fun coins => coins.isAvailable out.n)

namespace CoinStep

/-- Is an output unspent after a step, by whether it is before? -/
def leaves (out : COutPoint) (before : Bool) : CoinStep → Bool
  | spend spent => before && spent != out
  | create tx nHeight =>
    if tx.getHash = out.hash then (fromTx tx nHeight).isAvailable out.n else before

end CoinStep

/-- Is an output unspent after some steps, by whether it is before? -/
def leftUnspent (out : COutPoint) (before : Bool) (steps : List CoinStep) : Bool :=
  steps.foldl (CoinStep.leaves out) before

section Steps

variable {view view' : FlatCoins} {out : COutPoint}

theorem isUnspent_eq_record (view : FlatCoins) (out : COutPoint) :
    view.isUnspent out = (view.record out.hash).isAvailable out.n := by
  unfold FlatCoins.isUnspent FlatCoins.record
  cases view.get out.hash with
  | none => rfl
  | some coins => rfl

theorem isUnspent_put (view : FlatCoins) (txid : UInt256) (coins : CCoins) (out : COutPoint) :
    (view.put txid coins).isUnspent out =
      if out.hash = txid then coins.isAvailable out.n else view.isUnspent out := by
  unfold FlatCoins.isUnspent
  rw [FlatCoins.get_put]
  by_cases equal : out.hash = txid
  · rw [if_pos equal, if_pos equal]
    cases pruned : coins.cleanup.isPruned with
    | true =>
      have gone : coins.isAvailable out.n = false := by
        cases available : coins.isAvailable out.n with
        | false => rfl
        | true =>
          have unspent := isPruned_of_isAvailable available
          rw [isPruned_cleanup, unspent] at pruned
          cases pruned
      rw [visible, if_pos pruned, gone]
      rfl
    | false =>
      rw [visible, if_neg (by rw [pruned]; exact Bool.false_ne_true), Option.any_some,
        isAvailable_cleanup]
  · rw [if_neg equal, if_neg equal]

theorem isAvailable_without_ne (coins : CCoins) {n m : UInt32} (other : m ≠ n) :
    (coins.without n).isAvailable m = coins.isAvailable m := by
  have slots : n.toNat ≠ m.toNat := fun same => other (UInt32.toNat_inj.mp same.symm)
  rw [without, isAvailable_cleanup]
  unfold isAvailable
  rw [List.getElem?_set_ne slots]

/-- What a step makes of one output. -/
theorem isUnspent_exec {step : CoinStep} {undo : Option CTxInUndo}
    (h : exec view step = some (view', undo)) :
    view'.isUnspent out = step.leaves out (view.isUnspent out) := by
  cases step with
  | create tx nHeight =>
    obtain ⟨rfl, -⟩ := Prod.mk.inj (Option.some.inj h)
    rw [isUnspent_put, leaves]
    by_cases equal : tx.getHash = out.hash
    · rw [if_pos equal.symm, if_pos equal]
    · rw [if_neg (Ne.symm equal), if_neg equal]
  | spend spent =>
    simp only [exec, Option.map_eq_some_iff, Prod.mk.injEq, Prod.exists] at h
    obtain ⟨coins, undo', spends, rfl, -⟩ := h
    obtain ⟨txout, -, -, rfl, -⟩ := spend_eq_some spends
    rw [isUnspent_put, leaves]
    by_cases hash : out.hash = spent.hash
    · rw [if_pos hash]
      by_cases index : out.n = spent.n
      · have same : spent = out := by
          cases spent
          cases out
          simp_all
        rw [index, isAvailable_without rfl]
        simp [same]
      rw [isAvailable_without_ne _ index, isUnspent_eq_record, hash]
      have other : (spent != out) = true := by
        rw [bne_iff_ne]
        rintro rfl
        exact index rfl
      rw [other, Bool.and_true]
    · rw [if_neg hash]
      have other : (spent != out) = true := by
        rw [bne_iff_ne]
        rintro rfl
        exact hash rfl
      rw [other, Bool.and_true]

/-- What steps make of one output. -/
theorem isUnspent_execAll {steps : List CoinStep} {done : List (CoinStep × Option CTxInUndo)}
    (h : execAll exec view steps = some (view', done)) :
    view'.isUnspent out = leftUnspent out (view.isUnspent out) steps := by
  induction steps generalizing view done with
  | nil =>
    obtain ⟨rfl, -⟩ := Prod.mk.inj (Option.some.inj h)
    rfl
  | cons step steps ih =>
    obtain ⟨middle, undo, rest, first, later, -⟩ := execAll_cons h
    rw [ih later, isUnspent_exec first]
    rfl

theorem leftUnspent_append (before : Bool) (first second : List CoinStep) :
    leftUnspent out before (first ++ second) =
      leftUnspent out (leftUnspent out before first) second :=
  List.foldl_append

end Steps

/-! ## Chains -/

/-- The steps of blocks from a height on. The outputs of the block at height 0 are not put in
(`main.cpp:2191-2196`). -/
def chainSteps : Nat → List CBlock → List CoinStep
  | _, [] => []
  | nHeight, block :: rest =>
    (if nHeight = 0 then [] else block.vtx.flatMap (coinSteps · nHeight)) ++
      chainSteps (nHeight + 1) rest

/-- The view behind the blocks of a chain, from a height on. -/
def connectBlocks : Nat → FlatCoins → List CBlock → Option FlatCoins
  | _, view, [] => some view
  | nHeight, view, block :: rest =>
    if nHeight = 0 then connectBlocks (nHeight + 1) view rest
    else
      (execTransactions nHeight view block.vtx).bind fun (view, _) =>
        connectBlocks (nHeight + 1) view rest

/-- An output is unspent where the blocks are connected exactly if their steps leave it so. -/
theorem isUnspent_connectBlocks {nHeight : Nat} {view view' : FlatCoins} {vBlocks : List CBlock}
    (h : connectBlocks nHeight view vBlocks = some view') (out : COutPoint) :
    view'.isUnspent out = leftUnspent out (view.isUnspent out) (chainSteps nHeight vBlocks) := by
  induction vBlocks generalizing nHeight view with
  | nil =>
    obtain rfl := Option.some.inj h
    rfl
  | cons block rest ih =>
    rw [connectBlocks] at h
    rw [chainSteps, leftUnspent_append]
    by_cases genesis : nHeight = 0
    · rw [if_pos genesis] at h
      rw [if_pos genesis]
      exact ih h
    rw [if_neg genesis] at h
    rw [if_neg genesis]
    obtain ⟨⟨middle, done⟩, connects, later⟩ := Option.bind_eq_some_iff.mp h
    obtain ⟨-, -, executes⟩ := execTransactions_execAll connects
    rw [ih later, isUnspent_execAll executes]

end Esbcoin
