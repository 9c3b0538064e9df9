import Esbcoin.Coins.Unspent
import Esbcoin.Script.Push

/-!
# Transactions in the order they were connected

A ledger is a list of transactions with their heights, in which every coinbase starts with its
height, behind all coinbases before it, and every other transaction has inputs and spends what is
unspent. If the hash is injective on it, then no transaction of a ledger has the id of another one
(`Ledger.sound`): a coinbase differs from the others by its height, and any other transaction
would have to spend again what was spent.
-/

namespace Esbcoin

open UndoLog CoinStep Bytes List

/-- Different transactions of the list have different hashes. -/
def HashInjective (txs : List CTransaction) : Prop :=
  ∀ tx ∈ txs, ∀ tx' ∈ txs, tx.getHash = tx'.getHash → tx = tx'

theorem HashInjective.of_append {txs more : List (CTransaction × Int)}
    (injective : HashInjective ((txs ++ more).map Prod.fst)) :
    HashInjective (txs.map Prod.fst) := by
  rw [map_append] at injective
  exact fun tx member tx' member' => injective tx (mem_append_left _ member) tx'
    (mem_append_left _ member')

/-- Is an output unspent after these transactions, from nothing? -/
def unspentAfter (txs : List (CTransaction × Int)) (out : COutPoint) : Bool :=
  leftUnspent out false (txs.flatMap fun (tx, nHeight) => coinSteps tx nHeight)

/-- The script of the first input starts with the height. -/
def StartsWithHeight (tx : CTransaction) (nHeight : Int) : Prop :=
  ∃ txin vin rest, tx.vin = txin :: vin ∧ txin.scriptSig = CScript.pushInt64 nHeight ++ rest

/-- What a coinbase at a height brings behind some transactions. -/
structure CoinBaseBehind (txs : List (CTransaction × Int)) (tx : CTransaction)
    (nHeight : Int) : Prop where
  isBase : tx.isCoinBase = true
  height : StartsWithHeight tx nHeight
  nonneg : 0 ≤ nHeight
  fits : nHeight < 2 ^ 31
  later : ∀ e ∈ txs, e.1.isCoinBase = true → e.2 < nHeight

/-- What any other transaction brings behind some transactions. -/
structure SpendsBehind (txs : List (CTransaction × Int)) (tx : CTransaction) : Prop where
  notBase : tx.isCoinBase = false
  hasInputs : tx.vin ≠ []
  available : ∀ out ∈ tx.prevouts, unspentAfter txs out = true

/-- Transactions with their heights, in the order they were connected. -/
inductive Ledger : List (CTransaction × Int) → Prop
  | nil : Ledger []
  | coinBase {txs : List (CTransaction × Int)} {tx : CTransaction} {nHeight : Int}
      (ledger : Ledger txs) (behind : CoinBaseBehind txs tx nHeight) :
      Ledger (txs ++ [(tx, nHeight)])
  | spends {txs : List (CTransaction × Int)} {tx : CTransaction} {nHeight : Int}
      (ledger : Ledger txs) (behind : SpendsBehind txs tx) : Ledger (txs ++ [(tx, nHeight)])

/-! ## One transaction -/

theorem leftUnspent_spends (out : COutPoint) (before : Bool) (outs : List COutPoint) :
    leftUnspent out before (outs.map spend) = (before && !decide (out ∈ outs)) := by
  induction outs generalizing before with
  | nil => simp [leftUnspent]
  | cons spent outs ih =>
    show leftUnspent out (before && spent != out) (outs.map spend) = _
    rw [ih]
    by_cases same : spent = out
    · simp [same]
    · have other : (spent != out) = true := bne_iff_ne.mpr same
      rw [other, Bool.and_true]
      simp only [mem_cons, or_iff_right (Ne.symm same)]

/-- What a transaction makes of one output. -/
theorem leftUnspent_coinSteps (out : COutPoint) (before : Bool) (tx : CTransaction)
    (nHeight : Int) :
    leftUnspent out before (coinSteps tx nHeight) =
      if tx.getHash = out.hash then (CCoins.fromTx tx nHeight).isAvailable out.n
      else before && (tx.isCoinBase || !decide (out ∈ tx.prevouts)) := by
  rw [coinSteps, leftUnspent_append]
  show leaves out _ (create tx nHeight) = _
  rw [leaves]
  split
  · rfl
  · cases isBase : tx.isCoinBase with
    | true => rw [if_pos rfl, Bool.true_or, Bool.and_true, leftUnspent, foldl_nil]
    | false => rw [if_neg Bool.false_ne_true, leftUnspent_spends, Bool.false_or]

theorem unspentAfter_snoc (txs : List (CTransaction × Int)) (tx : CTransaction) (nHeight : Int)
    (out : COutPoint) :
    unspentAfter (txs ++ [(tx, nHeight)]) out =
      leftUnspent out (unspentAfter txs out) (coinSteps tx nHeight) := by
  unfold unspentAfter
  rw [flatMap_append, leftUnspent_append, flatMap_singleton]

/-- What is spent first was unspent. -/
theorem isUnspent_of_spends {view view' : FlatCoins} {outs : List COutPoint}
    {steps : List CoinStep} {done : List (CoinStep × Option CTxInUndo)}
    (h : execAll exec view (outs.map spend ++ steps) = some (view', done)) :
    ∀ out ∈ outs, view.isUnspent out = true := by
  induction outs generalizing view done with
  | nil => simp
  | cons spent outs ih =>
    obtain ⟨middle, undo, rest, first, later, -⟩ := execAll_cons h
    intro out member
    rcases mem_cons.mp member with rfl | member
    · simp only [exec, Option.map_eq_some_iff, Prod.mk.injEq, Prod.exists] at first
      obtain ⟨coins, undo', spends, -, -⟩ := first
      rw [isUnspent_eq_record, ← CCoins.isSome_spend]
      exact Option.isSome_of_mem spends
    · have unspent := ih later out member
      rw [isUnspent_exec first, leaves, Bool.and_eq_true] at unspent
      exact unspent.1

/-! ## No transaction comes twice -/

namespace Ledger

variable {txs : List (CTransaction × Int)} {tx : CTransaction} {nHeight : Int}

/-- What holds of a ledger on which the hash is injective. -/
structure Sound (txs : List (CTransaction × Int)) : Prop where
  ids : (txs.map fun e => e.1.getHash).Nodup
  made : ∀ out, unspentAfter txs out = true → ∃ e ∈ txs, e.1.getHash = out.hash
  spent : ∀ e ∈ txs, e.1.isCoinBase = false → ∀ out ∈ e.1.prevouts,
    unspentAfter txs out = false ∧ ∃ made ∈ txs, made.1.getHash = out.hash
  bases : ∀ e ∈ txs, e.1.isCoinBase = true → StartsWithHeight e.1 e.2 ∧ 0 ≤ e.2 ∧ e.2 < 2 ^ 31
  basesDiffer : txs.Pairwise fun e e' => e.1.isCoinBase = true → e'.1.isCoinBase = true →
    e.2 < e'.2 ∧ e.1.vin ≠ e'.1.vin
  hasInputs : ∀ e ∈ txs, e.1.isCoinBase = false → e.1.prevouts ≠ []
  spendOnce : txs.Pairwise fun e e' => e.1.isCoinBase = false → e'.1.isCoinBase = false →
    e.1.prevouts.Disjoint e'.1.prevouts

theorem vin_ne_of_height {tx' : CTransaction} {nHeight' : Int} (starts : StartsWithHeight tx nHeight)
    (starts' : StartsWithHeight tx' nHeight') (range : 0 ≤ nHeight ∧ nHeight < 2 ^ 31)
    (range' : 0 ≤ nHeight' ∧ nHeight' < 2 ^ 31) (differ : nHeight ≠ nHeight') :
    tx.vin ≠ tx'.vin := by
  intro same
  obtain ⟨txin, vin, rest, hvin, script⟩ := starts
  obtain ⟨txin', vin', rest', hvin', script'⟩ := starts'
  rw [hvin, hvin'] at same
  have scripts : CScript.pushInt64 nHeight ++ rest = CScript.pushInt64 nHeight' ++ rest' := by
    rw [← script, ← script', (List.cons.inj same).1]
  exact differ (splits_pushInt64 _ _ ⟨range.1, by omega⟩ ⟨range'.1, by omega⟩ _ _ scripts).1

/-- A transaction with an id of its own leaves the outputs of others as they are, but for those
it spends. -/
theorem unspentAfter_of_fresh (fresh : ∀ e ∈ txs, e.1.getHash ≠ tx.getHash) {out : COutPoint}
    (made : ∃ e ∈ txs, e.1.getHash = out.hash) :
    unspentAfter (txs ++ [(tx, nHeight)]) out =
      (unspentAfter txs out && (tx.isCoinBase || !decide (out ∈ tx.prevouts))) := by
  obtain ⟨e, member, hash⟩ := made
  rw [unspentAfter_snoc, leftUnspent_coinSteps,
    if_neg fun same => fresh e member (hash.trans same.symm)]

/-- Sound, and one more transaction with an id of its own. -/
theorem Sound.snoc (sound : Sound txs) (fresh : ∀ e ∈ txs, e.1.getHash ≠ tx.getHash)
    (behind : CoinBaseBehind txs tx nHeight ∨ SpendsBehind txs tx) :
    Sound (txs ++ [(tx, nHeight)]) where
  ids := by
    rw [map_append, map_singleton, ← concat_eq_append]
    refine List.Nodup.concat ?_ sound.ids
    intro member
    obtain ⟨e, listed, same⟩ := mem_map.mp member
    exact fresh e listed same
  made := by
    intro out unspent
    by_cases same : tx.getHash = out.hash
    · exact ⟨(tx, nHeight), mem_append_right _ mem_cons_self, same⟩
    · rw [unspentAfter_snoc, leftUnspent_coinSteps, if_neg same, Bool.and_eq_true] at unspent
      obtain ⟨e, member, hash⟩ := sound.made out unspent.1
      exact ⟨e, mem_append_left _ member, hash⟩
  spent := by
    intro e member notBase out spends
    have gone : (∃ made ∈ txs, made.1.getHash = out.hash) ∧
        (unspentAfter txs out && (tx.isCoinBase || !decide (out ∈ tx.prevouts))) = false := by
      rcases mem_append.mp member with member | last
      · obtain ⟨spent, made⟩ := sound.spent e member notBase out spends
        exact ⟨made, by rw [spent, Bool.false_and]⟩
      obtain rfl := mem_singleton.mp last
      rcases behind with base | spending
      · exact absurd base.isBase (Bool.eq_false_iff.mp notBase)
      · refine ⟨sound.made out (spending.available out spends), ?_⟩
        rw [spending.notBase, decide_eq_true spends]
        simp only [Bool.not_true, Bool.or_self, Bool.and_false]
    obtain ⟨made, spent⟩ := gone
    refine ⟨by rw [unspentAfter_of_fresh fresh made, spent], ?_⟩
    obtain ⟨e', listed, hash⟩ := made
    exact ⟨e', mem_append_left _ listed, hash⟩
  bases := by
    intro e member isBase
    rcases mem_append.mp member with member | last
    · exact sound.bases e member isBase
    obtain rfl := mem_singleton.mp last
    rcases behind with base | spends
    · exact ⟨base.height, base.nonneg, base.fits⟩
    · exact absurd isBase (Bool.eq_false_iff.mp spends.notBase)
  basesDiffer := by
    rw [pairwise_append]
    refine ⟨sound.basesDiffer, pairwise_singleton _ _, ?_⟩
    rintro e member _ last isBase isBase'
    obtain rfl := mem_singleton.mp last
    rcases behind with base | spends
    · have earlier := base.later e member isBase
      obtain ⟨starts, range⟩ := sound.bases e member isBase
      exact ⟨earlier, vin_ne_of_height starts base.height range ⟨base.nonneg, base.fits⟩
        (Int.ne_of_lt earlier)⟩
    · exact absurd isBase' (Bool.eq_false_iff.mp spends.notBase)
  hasInputs := by
    intro e member notBase
    rcases mem_append.mp member with member | last
    · exact sound.hasInputs e member notBase
    obtain rfl := mem_singleton.mp last
    rcases behind with base | spends
    · exact absurd base.isBase (Bool.eq_false_iff.mp notBase)
    · exact fun none => spends.hasInputs (map_eq_nil_iff.mp none)
  spendOnce := by
    rw [pairwise_append]
    refine ⟨sound.spendOnce, pairwise_singleton _ _, ?_⟩
    rintro e member _ last notBase notBase' out spent spentAgain
    obtain rfl := mem_singleton.mp last
    rcases behind with base | spends
    · exact absurd base.isBase (Bool.eq_false_iff.mp notBase')
    · have unspent := spends.available out spentAgain
      rw [(sound.spent e member notBase out spent).1] at unspent
      cases unspent

/-- What comes behind a sound ledger on which the hash is injective has an id of its own. -/
theorem Sound.fresh (sound : Sound txs)
    (injective : HashInjective ((txs ++ [(tx, nHeight)]).map Prod.fst))
    (behind : CoinBaseBehind txs tx nHeight ∨ SpendsBehind txs tx) :
    ∀ e ∈ txs, e.1.getHash ≠ tx.getHash := by
  intro e member hash
  have same : e.1 = tx := by
    apply injective e.1 _ tx _ hash
    · exact mem_map_of_mem (mem_append_left _ member)
    · exact mem_map.mpr ⟨(tx, nHeight), mem_append_right _ mem_cons_self, rfl⟩
  rcases behind with base | spends
  · have isBase : e.1.isCoinBase = true := by rw [same]; exact base.isBase
    have earlier := base.later e member isBase
    obtain ⟨starts, range⟩ := sound.bases e member isBase
    apply vin_ne_of_height starts base.height range ⟨base.nonneg, base.fits⟩
      (Int.ne_of_lt earlier)
    rw [same]
  have notBase : e.1.isCoinBase = false := by rw [same]; exact spends.notBase
  obtain ⟨out, rest, hprevouts⟩ := exists_cons_of_ne_nil
    (sound.hasInputs e member notBase)
  have spent := (sound.spent e member notBase out (hprevouts ▸ mem_cons_self)).1
  rw [spends.available out (same ▸ hprevouts ▸ mem_cons_self)] at spent
  cases spent

theorem sound (ledger : Ledger txs) (injective : HashInjective (txs.map Prod.fst)) :
    Sound txs := by
  induction ledger with
  | nil =>
    exact ⟨nodup_nil, fun _ unspent => absurd unspent Bool.false_ne_true, by simp, by simp,
      List.Pairwise.nil, by simp, List.Pairwise.nil⟩
  | coinBase _ behind ih =>
    have before := ih injective.of_append
    exact before.snoc (before.fresh injective (Or.inl behind)) (Or.inl behind)
  | spends _ behind ih =>
    have before := ih injective.of_append
    exact before.snoc (before.fresh injective (Or.inr behind)) (Or.inr behind)

end Ledger

end Esbcoin
