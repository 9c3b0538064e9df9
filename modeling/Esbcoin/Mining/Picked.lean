import Esbcoin.Coins.Outputs
import Esbcoin.Mining.Collect

/-!
# What the loop picks

The transactions that `CreateNewBlock` picks are of the pool; each one spends what is unspent at the
tip or made by one picked before it, nothing is spent twice and no child stands in front of its
parent (`Picked`). The counters of the loop are the sums over what is picked (`Counted`).
-/

namespace Esbcoin

open CTransaction List

/-! ## Sums along a list -/

/-- The sum over a list of what an element has behind those in front of it. -/
def sumAlong {α M : Type} [AddCommMonoid M] (f : List α → α → M) (earlier : List α) :
    List α → M
  | [] => 0
  | a :: rest => f earlier a + sumAlong f (earlier ++ [a]) rest

theorem sumAlong_snoc {α M : Type} [AddCommMonoid M] (f : List α → α → M) (earlier l : List α)
    (a : α) :
    sumAlong f earlier (l ++ [a]) = sumAlong f earlier l + f (earlier ++ l) a := by
  induction l generalizing earlier with
  | nil => simp [sumAlong]
  | cons b l ih =>
    rw [cons_append, sumAlong, sumAlong, ih, append_assoc, add_assoc]
    rfl

/-! ## Fees and signature operations -/

variable (tip : FlatCoins)

/-- The value of the inputs, behind these transactions. -/
def valueInAt (earlier : List CTransaction) (tx : CTransaction) : Int :=
  (tx.vin.map fun txin => ((referredOutput tip earlier txin.prevout).map CTxOut.nValue).getD 0).sum

/-- The fee, behind these transactions. -/
def feeAt (earlier : List CTransaction) (tx : CTransaction) : Int :=
  valueInAt tip earlier tx - (tx.vout.map CTxOut.nValue).sum

/-- The signature operations of a transaction over a view, behind some transactions. -/
def sigOpsAt (earlier : List CTransaction) (tx : CTransaction) : Nat :=
  getLegacySigOpCount tx + if tx.isCoinBase then 0
    else
      (tx.vin.map fun txin =>
        (referredOutput tip earlier txin.prevout).elim 0 fun prevout =>
          scriptHashSigOps prevout txin).sum

/-- What pool and tip have of each other. -/
structure PoolFits (pool : CTxMemPool) : Prop where
  /-- `addUnchecked` files a transaction under its hash (`main.cpp:1320`). -/
  keyed : ∀ hash entry, pool.mapTx.lookup hash = some entry → entry.tx.getHash = hash
  /-- `CheckTransaction` lets nothing without inputs pass (`main.cpp:981-983`). -/
  hasInputs : ∀ hash entry, pool.mapTx.lookup hash = some entry → entry.tx.vin ≠ []
  /-- Nor with an input twice (`main.cpp:1011-1016`). -/
  distinct : ∀ hash entry, pool.mapTx.lookup hash = some entry → entry.tx.prevouts.Nodup
  /-- What the tip has the outputs of is not taken (`main.cpp:1203`), and leaves the pool when
  it is connected (`main.cpp:2597`). -/
  unconfirmed : ∀ hash entry, pool.mapTx.lookup hash = some entry → tip.get hash = none

/-- Some transactions of the pool, in an order in which they can be connected to a tip, with the
view they leave. -/
structure Picked (pool : CTxMemPool) (vtx : List CTransaction) (view : FlatCoins) : Prop where
  fromPool : ∀ tx ∈ vtx, ∃ entry, pool.mapTx.lookup tx.getHash = some entry ∧ entry.tx = tx
  notBase : ∀ tx ∈ vtx, tx.isCoinBase = false
  shown : ∀ out txout, view.output out = some txout → referredOutput tip vtx out = some txout
  spent : ∀ tx ∈ vtx, ∀ out ∈ tx.prevouts, view.output out = none
  ids : (vtx.map getHash).Nodup
  available : ∀ earlier tx later, vtx = earlier ++ tx :: later → ∀ out ∈ tx.prevouts,
    ∃ txout, referredOutput tip earlier out = some txout
  spentOnce : (vtx.flatMap prevouts).Nodup
  ordered : vtx.Pairwise fun child parent => ∀ out ∈ child.prevouts, out.hash ≠ parent.getHash

section Step

variable {tip : FlatCoins} {pool : CTxMemPool} {vtx : List CTransaction} {view view' : FlatCoins}
  {tx : CTransaction}

theorem Picked.nil : Picked tip pool [] tip where
  fromPool := by simp
  notBase := by simp
  shown _ _ found := found
  spent := by simp
  ids := nodup_nil
  available earlier tx later split := by simp at split
  spentOnce := nodup_nil
  ordered := List.Pairwise.nil

/-- What is spent comes from the tip or from one of the transactions. -/
theorem Picked.source (picked : Picked tip pool vtx view) :
    ∀ tx ∈ vtx, ∀ out ∈ tx.prevouts,
      tip.get out.hash ≠ none ∨ out.hash ∈ vtx.map getHash := by
  intro tx member out spends
  obtain ⟨earlier, later, rfl⟩ := append_of_mem member
  obtain ⟨txout, found⟩ := picked.available earlier tx later rfl out spends
  rcases source_of_referredOutput found with there | before
  · exact Or.inl there
  · rw [map_append]
    exact Or.inr (mem_append_left _ before)

/-- One more transaction of the pool, which is none of them, whose inputs are shown. -/
theorem Picked.snoc (fits : PoolFits tip pool) (picked : Picked tip pool vtx view)
    (inPool : ∃ hash entry, pool.mapTx.lookup hash = some entry ∧ entry.tx = tx)
    (notBase : tx.isCoinBase = false)
    (spendable : ∀ out ∈ tx.prevouts, view.isUnspent out = true) {nHeight : Int} {txundo : CTxUndo}
    (updates : updateCoins tx view nHeight = some (view', txundo)) :
    Picked tip pool (vtx ++ [tx]) view' := by
  obtain ⟨hash, entry, found, rfl⟩ := inPool
  obtain rfl := fits.keyed hash entry found
  have inputs : ∀ out ∈ entry.tx.prevouts, ∃ txout, view.output out = some txout := by
    intro out spends
    apply Option.isSome_iff_exists.mp
    rw [view.isSome_output]
    exact spendable out spends
  -- picked before, it would have spent its inputs
  have fresh : entry.tx.getHash ∉ vtx.map getHash := by
    intro listed
    obtain ⟨tx, member, same⟩ := mem_map.mp listed
    obtain ⟨entry', found', rfl⟩ := picked.fromPool tx member
    rw [same, found] at found'
    obtain rfl := Option.some.inj found'
    obtain ⟨txin, vin, hvin⟩ := exists_cons_of_ne_nil (fits.hasInputs _ _ found)
    have spends : txin.prevout ∈ entry.tx.prevouts := by
      rw [prevouts, hvin]
      exact mem_cons_self
    obtain ⟨txout, shown⟩ := inputs _ spends
    rw [picked.spent _ member _ spends] at shown
    cases shown
  have elsewhere : ∀ hash, (tip.get hash ≠ none ∨ hash ∈ vtx.map getHash) →
      hash ≠ entry.tx.getHash := by
    rintro hash (atTip | earlier) rfl
    · exact atTip (fits.unconfirmed _ _ found)
    · exact fresh earlier
  have source : ∀ out ∈ entry.tx.prevouts, out.hash ≠ entry.tx.getHash := by
    intro out spends
    obtain ⟨txout, shown⟩ := inputs out spends
    exact elsewhere _ (source_of_referredOutput (picked.shown out txout shown))
  have own : ∀ tx ∈ vtx ++ [entry.tx], tx ∈ vtx ∨ tx = entry.tx := by
    intro tx member
    rcases mem_append.mp member with before | last
    · exact Or.inl before
    · exact Or.inr (mem_singleton.mp last)
  refine ⟨?_, ?_, ?_, ?_, ?_, ?_, ?_, ?_⟩
  · intro tx member
    rcases own tx member with before | rfl
    · exact picked.fromPool tx before
    · exact ⟨entry, found, rfl⟩
  · intro tx member
    rcases own tx member with before | rfl
    · exact picked.notBase tx before
    · exact notBase
  · intro out txout shown
    rw [referredOutput_snoc]
    rcases output_of_updateCoins notBase updates shown with ⟨same, made⟩ | ⟨other, there, -⟩
    · rw [if_pos same.symm]
      exact made
    · rw [if_neg (Ne.symm other)]
      exact picked.shown out txout there
  · intro tx member out spends
    have gone : ∀ txout, view'.output out = some txout → False := by
      intro txout shown
      rcases output_of_updateCoins notBase updates shown with ⟨same, -⟩ | ⟨-, there, unlisted⟩
      · rcases own tx member with before | rfl
        · exact elsewhere _ (picked.source tx before out spends) same
        · exact source out spends same
      rcases own tx member with before | rfl
      · rw [picked.spent tx before out spends] at there
        cases there
      · exact unlisted spends
    cases shown : view'.output out with
    | none => rfl
    | some txout => exact (gone txout shown).elim
  · rw [map_append, map_singleton, ← concat_eq_append]
    exact List.Nodup.concat fresh picked.ids
  · intro earlier tx later split out spends
    rcases eq_nil_or_concat later with rfl | ⟨rest, last, rfl⟩
    · obtain ⟨rfl, same⟩ := append_inj' split rfl
      obtain rfl := singleton_inj.mp same
      obtain ⟨txout, shown⟩ := inputs out spends
      exact ⟨txout, picked.shown out txout shown⟩
    have inner : vtx = earlier ++ tx :: rest := by
      rw [concat_eq_append, ← cons_append, ← append_assoc] at split
      exact (append_inj' split rfl).1
    exact picked.available earlier tx rest inner out spends
  · rw [flatMap_append, flatMap_singleton, nodup_append]
    refine ⟨picked.spentOnce, fits.distinct _ _ found, ?_⟩
    rintro out listed out' spends rfl
    obtain ⟨tx, before, spent⟩ := mem_flatMap.mp listed
    obtain ⟨txout, shown⟩ := inputs out spends
    rw [picked.spent tx before out spent] at shown
    cases shown
  · rw [pairwise_append]
    refine ⟨picked.ordered, pairwise_singleton _ _, ?_⟩
    intro child before parent last out spends
    obtain rfl := mem_singleton.mp last
    exact elsewhere _ (picked.source child before out spends)

end Step

/-! ## Where the queues come from -/

section Queues

variable {env : CollectEnv} {pool : CTxMemPool} {tx : CTransaction}

theorem mem_transactions {tx : CTransaction} :
    tx ∈ pool.transactions ↔ ∃ hash entry, pool.mapTx.lookup hash = some entry ∧ entry.tx = tx := by
  unfold CTxMemPool.transactions
  simp only [mem_map, mem_insertionSort]
  constructor
  · rintro ⟨⟨hash, entry⟩, member, rfl⟩
    exact ⟨hash, entry, AList.mem_lookup_iff.mpr member, rfl⟩
  · rintro ⟨hash, entry, found, rfl⟩
    exact ⟨⟨hash, entry⟩, AList.mem_lookup_iff.mp found, rfl⟩

/-- A transaction of the pool that is not left out. -/
structure Candidate (env : CollectEnv) (pool : CTxMemPool) (tx : CTransaction) : Prop where
  inPool : tx ∈ pool.transactions
  kept : leftOut env tx = false

theorem Candidate.notBase (candidate : Candidate env pool tx) : tx.isCoinBase = false := by
  have kept := candidate.kept
  unfold leftOut at kept
  simp only [Bool.or_eq_false_iff] at kept
  exact kept.1.1

/-- Whatever is queued or waits is a candidate. -/
structure QueuesFrom (env : CollectEnv) (pool : CTxMemPool) (queues : TxQueues) : Prop where
  queued : ∀ next ∈ queues.vecPriority, Candidate env pool next.tx
  waiting : ∀ porphan orphan, queues.vOrphan.lookup porphan = some orphan →
    Candidate env pool orphan.tx

theorem QueuesFrom.waitFor {r : InputsRead} (from_ : QueuesFrom env pool r.queues)
    (candidate : Candidate env pool tx) (hash : UInt256) (nValue : Int) :
    QueuesFrom env pool (r.waitFor tx hash nValue).queues where
  queued := from_.queued
  waiting := by
    intro porphan orphan found
    simp only [InputsRead.waitFor, AssocMap.lookup_insert_eq] at found
    split at found
    · obtain rfl := Option.some.inj found
      cases here : r.queues.vOrphan.lookup (r.porphan.getD r.queues.nOrphans) with
      | none => exact candidate
      | some orphan => exact from_.waiting _ orphan here
    · exact from_.waiting porphan orphan found

theorem QueuesFrom.dropOrphan {r : InputsRead} (from_ : QueuesFrom env pool r.queues) :
    QueuesFrom env pool r.dropOrphan.queues := by
  unfold InputsRead.dropOrphan
  split
  · exact from_
  refine ⟨from_.queued, fun porphan orphan found => ?_⟩
  rw [AssocMap.lookup_erase_eq] at found
  split at found
  · cases found
  · exact from_.waiting porphan orphan found

theorem QueuesFrom.readInputs {vin : List CTxIn} {r r' : InputsRead} {fMissingInputs : Bool}
    (from_ : QueuesFrom env pool r.queues) (candidate : Candidate env pool tx)
    (reads : Esbcoin.readInputs env pool tx r vin = some (r', fMissingInputs)) :
    QueuesFrom env pool r'.queues := by
  induction vin generalizing r with
  | nil =>
    obtain ⟨rfl, -⟩ := Prod.mk.inj (Option.some.inj reads)
    exact from_
  | cons txin vin ih =>
    rw [Esbcoin.readInputs] at reads
    split at reads
    · split at reads
      · split at reads
        · cases reads
        · obtain ⟨rfl, -⟩ := Prod.mk.inj (Option.some.inj reads)
          exact from_.dropOrphan
      · obtain ⟨out, -, later⟩ := Option.bind_eq_some_iff.mp reads
        exact ih (from_.waitFor candidate _ _) later
    · obtain ⟨out, -, later⟩ := Option.bind_eq_some_iff.mp reads
      exact ih (r := r.addInput _ _ _) from_ later

theorem QueuesFrom.queueTx {r : InputsRead} {queues : TxQueues}
    (from_ : QueuesFrom env pool r.queues) (candidate : Candidate env pool tx)
    (queued : Esbcoin.queueTx pool tx r = some queues) : QueuesFrom env pool queues := by
  obtain ⟨nValueOut, -, rfl⟩ := Option.map_eq_some_iff.mp queued
  cases own : r.porphan with
  | some porphan =>
    refine ⟨from_.queued, fun other orphan found => ?_⟩
    simp only [AssocMap.lookup_modify] at found
    split at found
    · obtain ⟨before, here, rfl⟩ := Option.map_eq_some_iff.mp found
      exact from_.waiting _ before here
    · exact from_.waiting other orphan found
  | none =>
    refine ⟨fun next member => ?_, from_.waiting⟩
    rcases mem_append.mp member with before | last
    · exact from_.queued next before
    · obtain rfl := mem_singleton.mp last
      exact candidate

theorem QueuesFrom.queueTransactions {txs : List CTransaction} {queues queues' : TxQueues}
    (from_ : QueuesFrom env pool queues) (inPool : ∀ tx ∈ txs, tx ∈ pool.transactions)
    (done : Esbcoin.queueTransactions env pool queues txs = some queues') :
    QueuesFrom env pool queues' := by
  induction txs generalizing queues with
  | nil =>
    obtain rfl := Option.some.inj done
    exact from_
  | cons tx txs ih =>
    have rest : ∀ tx ∈ txs, tx ∈ pool.transactions := fun tx member =>
      inPool tx (mem_cons_of_mem _ member)
    rw [Esbcoin.queueTransactions] at done
    cases kept : leftOut env tx with
    | true =>
      rw [kept, if_pos rfl] at done
      exact ih from_ rest done
    | false =>
      rw [kept, if_neg Bool.false_ne_true] at done
      have candidate : Candidate env pool tx := ⟨inPool tx mem_cons_self, kept⟩
      obtain ⟨⟨r, fMissingInputs⟩, reads, later⟩ := Option.bind_eq_some_iff.mp done
      have read : QueuesFrom env pool r.queues :=
        QueuesFrom.readInputs (r := { queues }) from_ candidate reads
      cases fMissingInputs with
      | true => exact ih read rest later
      | false =>
        obtain ⟨next, queued, later⟩ := Option.bind_eq_some_iff.mp later
        exact ih (read.queueTx candidate queued) rest later

theorem QueuesFrom.release {hash : UInt256} {dependers : List Nat} {queues queues' : TxQueues}
    (from_ : QueuesFrom env pool queues)
    (done : Esbcoin.release hash queues dependers = some queues') :
    QueuesFrom env pool queues' := by
  induction dependers generalizing queues with
  | nil =>
    obtain rfl := Option.some.inj done
    exact from_
  | cons porphan rest ih =>
    rw [Esbcoin.release] at done
    obtain ⟨orphan, found, later⟩ := Option.bind_eq_some_iff.mp done
    have candidate := from_.waiting porphan orphan found
    have waiting : ∀ key other, AList.lookup key (queues.vOrphan.insert porphan
        { orphan with setDependsOn := orphan.setDependsOn.erase hash }) = some other →
        Candidate env pool other.tx := by
      intro key other there
      rw [AssocMap.lookup_insert_eq] at there
      split at there
      · obtain rfl := Option.some.inj there
        exact candidate
      · exact from_.waiting key other there
    split at later
    · exact ih from_ later
    dsimp only at later
    split at later
    · refine ih ⟨fun next member => ?_, waiting⟩ later
      rcases mem_append.mp member with before | last
      · exact from_.queued next before
      · obtain rfl := mem_singleton.mp last
        exact candidate
    have marked : QueuesFrom env pool { queues with
        vOrphan := queues.vOrphan.insert porphan
          { orphan with setDependsOn := orphan.setDependsOn.erase hash } } :=
      ⟨from_.queued, waiting⟩
    exact ih marked later

end Queues

/-! ## One turn -/

/-- The counters of the loop are sums over what is picked, below the limits. -/
structure Counted (env : CollectEnv) (c : Collecting) : Prop where
  size : c.nBlockSize = 1000 + (c.vtx.map getSerializeSize).sum
  sizeRoom : c.nBlockSize + 1000 < MAX_BLOCK_SIZE
  sigOps : c.nBlockSigOps = 100 + sumAlong (sigOpsAt env.pcoinsTip.coins) [] c.vtx
  sigOpsRoom : c.nBlockSigOps < MAX_BLOCK_SIGOPS
  fees : c.nFees = sumAlong (feeAt env.pcoinsTip.coins) [] c.vtx

/-- What holds in every turn of the loop. -/
structure Collected (env : CollectEnv) (pool : CTxMemPool) (c : Collecting) : Prop where
  queues : QueuesFrom env pool c.queues
  picked : Picked env.pcoinsTip.coins pool c.vtx c.view
  counted : Counted env c

section Turn

variable {env : CollectEnv} {pool : CTxMemPool} {tip view : FlatCoins} {vtx : List CTransaction}

theorem sumInputs_eq
    (shown : ∀ out txout, view.output out = some txout → referredOutput tip vtx out = some txout)
    {vin : List CTxIn} {nValueIn : Int} (sums : view.sumInputs vin = some nValueIn) :
    nValueIn = (vin.map fun txin =>
      ((referredOutput tip vtx txin.prevout).map CTxOut.nValue).getD 0).sum := by
  induction vin generalizing nValueIn with
  | nil => exact (Option.some.inj sums).symm
  | cons txin vin ih =>
    rw [FlatCoins.sumInputs] at sums
    split at sums
    · rename_i out rest here later
      rw [FlatCoins.getOutputFor_eq] at here
      rw [map_cons, sum_cons, shown _ _ here, ← ih later]
      exact (Option.some.inj sums).symm
    · cases sums

theorem sumScriptHashSigOps_eq
    (shown : ∀ out txout, view.output out = some txout → referredOutput tip vtx out = some txout)
    {vin : List CTxIn} {nSigOps : Nat} (sums : sumScriptHashSigOps view vin = some nSigOps) :
    nSigOps = (vin.map fun txin => (referredOutput tip vtx txin.prevout).elim 0 fun prevout =>
      scriptHashSigOps prevout txin).sum := by
  induction vin generalizing nSigOps with
  | nil => exact (Option.some.inj sums).symm
  | cons txin vin ih =>
    rw [sumScriptHashSigOps] at sums
    split at sums
    · rename_i out rest here later
      rw [FlatCoins.getOutputFor_eq] at here
      rw [map_cons, sum_cons, shown _ _ here, ← ih later]
      exact (Option.some.inj sums).symm
    · cases sums

/-- What the checks on the inputs have found of a transaction that is taken. -/
theorem takes_some {c : Collecting} {tx : CTransaction} {nTxFees : Int} {nTxSigOps : Nat}
    (notBase : tx.isCoinBase = false)
    (shown : ∀ out txout, c.view.output out = some txout →
      referredOutput tip c.vtx out = some txout)
    (taken : takes env c tx = some (some (nTxFees, nTxSigOps))) :
    (∀ out ∈ tx.prevouts, c.view.isUnspent out = true) ∧ nTxFees = feeAt tip c.vtx tx ∧
      nTxSigOps = sigOpsAt tip c.vtx tx ∧ c.nBlockSigOps + nTxSigOps < MAX_BLOCK_SIGOPS := by
  unfold takes at taken
  split at taken
  · cases taken
  rename_i inputs
  obtain ⟨nValueIn, valueIn, taken⟩ := Option.bind_eq_some_iff.mp taken
  obtain ⟨nValueOut, valueOut, taken⟩ := Option.bind_eq_some_iff.mp taken
  obtain ⟨nP2SHSigOps, sigOps, taken⟩ := Option.bind_eq_some_iff.mp taken
  dsimp only at taken
  split at taken
  · cases taken
  rename_i room
  split at taken
  · cases taken
  · cases taken
  obtain ⟨rfl, rfl⟩ := Prod.mk.inj (Option.some.inj (Option.some.inj taken))
  unfold FlatCoins.getValueIn at valueIn
  unfold getP2SHSigOpCount at sigOps
  rw [notBase, if_neg Bool.false_ne_true] at valueIn sigOps
  refine ⟨?_, ?_, ?_, by omega⟩
  · apply (FlatCoins.haveInputs_iff notBase).mp
    cases have_ : c.view.haveInputs tx with
    | true => rfl
    | false => exact absurd (by rw [have_]; rfl) inputs
  · rw [feeAt, valueInAt, ← sumInputs_eq shown valueIn, addValues_eq_sum valueOut,
      zero_add]
  · rw [sigOpsAt, notBase, if_neg Bool.false_ne_true, ← sumScriptHashSigOps_eq shown sigOps]

theorem nBlockMaxSize_le (env : CollectEnv) : env.nBlockMaxSize ≤ MAX_BLOCK_SIZE - 1000 := by
  unfold CollectEnv.nBlockMaxSize MAX_BLOCK_SIZE
  omega

variable {c c' : Collecting} {next : TxPriority}

theorem Collected.addToBlock (fits : PoolFits env.pcoinsTip.coins pool)
    (collected : Collected env pool c) {tx : CTransaction} (candidate : Candidate env pool tx)
    (size : c.nBlockSize + tx.getSerializeSize < env.nBlockMaxSize) {nTxFees : Int}
    {nTxSigOps : Nat} (taken : takes env c tx = some (some (nTxFees, nTxSigOps)))
    (added : Esbcoin.addToBlock env c tx nTxFees nTxSigOps = some c') :
    Collected env pool c' := by
  obtain ⟨inputs, rfl, rfl, room⟩ := takes_some candidate.notBase collected.picked.shown taken
  obtain ⟨⟨view, txundo⟩, updates, added⟩ := Option.bind_eq_some_iff.mp added
  obtain ⟨queues, released, rfl⟩ := Option.map_eq_some_iff.mp added
  have counted := collected.counted
  have limit := nBlockMaxSize_le env
  refine ⟨collected.queues.release released, ?_, ?_, ?_, ?_, room, ?_⟩
  · exact collected.picked.snoc fits (mem_transactions.mp candidate.inPool) candidate.notBase
      inputs updates
  · dsimp only
    rw [counted.size, map_append, sum_append, map_singleton, sum_singleton,
      add_assoc]
  · dsimp only
    omega
  · dsimp only
    rw [sumAlong_snoc, counted.sigOps, nil_append, add_assoc]
  · dsimp only
    rw [sumAlong_snoc, counted.fees, nil_append]

/-- The queues and the order they are read in are no part of what is picked. -/
theorem Collected.requeue (collected : Collected env pool c) {queues : TxQueues}
    (from_ : QueuesFrom env pool queues) (fSortedByFee : Bool) :
    Collected env pool { c with queues, fSortedByFee } where
  queues := from_
  picked := collected.picked
  counted := ⟨collected.counted.size, collected.counted.sizeRoom, collected.counted.sigOps,
    collected.counted.sigOpsRoom, collected.counted.fees⟩

section

variable (fits : PoolFits env.pcoinsTip.coins pool)
include fits

/-- What a turn does with a candidate keeps what holds. -/
theorem Collected.tryNext (collected : Collected env pool c)
    (candidate : Candidate env pool next.tx) (tried : Esbcoin.tryNext env pool c next = some c') :
    Collected env pool c' := by
  unfold Esbcoin.tryNext at tried
  split at tried
  · obtain rfl := Option.some.inj tried
    exact collected
  rename_i kept
  have size : c.nBlockSize + next.tx.getSerializeSize < env.nBlockMaxSize := by
    by_contra full
    apply kept
    unfold passedOver
    dsimp only
    rw [decide_eq_true (not_lt.mp full), Bool.true_or, Bool.true_or]
  have sorted : Collected env pool { c with fSortedByFee := sortedByFee env c next } :=
    collected.requeue collected.queues _
  obtain ⟨taken, takes, tried⟩ := Option.bind_eq_some_iff.mp tried
  cases taken with
  | none =>
    obtain rfl := Option.some.inj tried
    exact sorted
  | some found => exact sorted.addToBlock fits candidate size takes tried

theorem Collected.turn (collected : Collected env pool c) {turn : Nat}
    (turned : collectTurn env pool turn c = some c') : Collected env pool c' := by
  unfold collectTurn at turned
  dsimp only at turned
  split at turned
  · cases turned
  rename_i next found
  have candidate := collected.queues.queued next (mem_of_getElem? found)
  have rest : QueuesFrom env pool { c.queues with
      vecPriority := c.queues.vecPriority.eraseIdx
        (env.heap.front turn c.fSortedByFee c.queues.vecPriority) } :=
    ⟨fun other member => collected.queues.queued other (mem_of_mem_eraseIdx member),
      collected.queues.waiting⟩
  exact (collected.requeue rest _).tryNext fits candidate turned

/-- The loop keeps what holds. -/
theorem Collected.collect {left : Nat} (collected : Collected env pool c)
    (done : Esbcoin.collect env pool left c = some c') :
    Collected env pool c' := by
  induction left generalizing c with
  | zero =>
    obtain rfl := Option.some.inj done
    exact collected
  | succ left ih =>
    rw [Esbcoin.collect] at done
    split at done
    · obtain rfl := Option.some.inj done
      exact collected
    · obtain ⟨middle, turned, later⟩ := Option.bind_eq_some_iff.mp done
      exact ih (collected.turn fits turned) later

/-- What is picked for a template. -/
theorem collected_of_collectTransactions (done : collectTransactions env pool = some c) :
    Collected env pool c := by
  obtain ⟨queues, queued, done⟩ := Option.bind_eq_some_iff.mp done
  have start : QueuesFrom env pool {} := by
    refine ⟨by simp, fun porphan orphan found => ?_⟩
    rw [AList.lookup_empty] at found
    cases found
  refine Collected.collect fits ⟨start.queueTransactions (fun tx member => member) queued,
    Picked.nil, ?_, ?_, ?_, ?_, ?_⟩ done
  · rfl
  · show 1000 + 1000 < MAX_BLOCK_SIZE
    decide
  · rfl
  · show 100 < MAX_BLOCK_SIGOPS
    decide
  · rfl

end

end Turn

end Esbcoin
