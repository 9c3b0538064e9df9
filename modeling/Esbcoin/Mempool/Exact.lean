import Esbcoin.Mempool

/-!
# The maps of the memory pool

`mapNextTx` is the inverse of the inputs of `mapTx`, whatever is added, removed or connected, and a
recursive removal leaves no transaction behind that spends from a removed one. The walk of `remove`
through the descendants takes entries out of the map it walks through; its invariant is that every
spender of a removed transaction is still in the queue.
-/

namespace Esbcoin

open AssocMap List

/-- The transaction spends an output of the other one. -/
def CTransaction.SpendsFrom (tx parent : CTransaction) : Prop :=
  ∃ i < parent.vout.length, (⟨parent.getHash, UInt32.ofNat i⟩ : COutPoint) ∈ tx.prevouts

/-- What the maps of the pool keep. -/
structure PoolExact (pool : CTxMemPool) : Prop where
  filed : ∀ hash entry, pool.mapTx.lookup hash = some entry → entry.tx.getHash = hash
  /-- `mapNextTx` holds the inputs of the transactions of the pool, and nothing else. -/
  spent : ∀ prevout hash n, pool.mapNextTx.lookup prevout = some ⟨hash, n⟩ ↔
    ∃ entry, pool.mapTx.lookup hash = some entry ∧ entry.tx.prevouts[n]? = some prevout
  size : pool.totalTxSize = pool.mapTx.total fun _ entry => entry.nTxSize

namespace PoolExact

variable {pool : CTxMemPool}

theorem init : PoolExact CTxMemPool.init where
  filed := by simp [CTxMemPool.init]
  spent := by simp [CTxMemPool.init]
  size := rfl

theorem clear : PoolExact pool.clear where
  filed := by simp [CTxMemPool.clear]
  spent := by simp [CTxMemPool.clear]
  size := rfl

/-- No outpoint is spent by two transactions of the pool, or twice by one. -/
theorem unique (h : PoolExact pool) {prevout : COutPoint} {first second : UInt256}
    {e₁ e₂ : CTxMemPoolEntry} {n₁ n₂ : Nat} (h₁ : pool.mapTx.lookup first = some e₁)
    (h₂ : pool.mapTx.lookup second = some e₂) (p₁ : e₁.tx.prevouts[n₁]? = some prevout)
    (p₂ : e₂.tx.prevouts[n₂]? = some prevout) : first = second ∧ n₁ = n₂ := by
  have here := (h.spent prevout first n₁).mpr ⟨e₁, h₁, p₁⟩
  have there := (h.spent prevout second n₂).mpr ⟨e₂, h₂, p₂⟩
  rw [here] at there
  simpa using there

end PoolExact

/-! ## Adding -/

namespace CTxMemPool

theorem lookup_fileInputs {hash : UInt256} {vin : List CTxIn}
    (distinct : (vin.map CTxIn.prevout).Nodup) (mapNextTx : AssocMap COutPoint CInPoint) (i : Nat)
    (prevout : COutPoint) (inPoint : CInPoint) :
    (fileInputs hash mapNextTx i vin).lookup prevout = some inPoint ↔
      (∃ n, (vin.map CTxIn.prevout)[n]? = some prevout ∧ inPoint = ⟨hash, i + n⟩) ∨
        (prevout ∉ vin.map CTxIn.prevout ∧ mapNextTx.lookup prevout = some inPoint) := by
  induction vin generalizing mapNextTx i with
  | nil => simp [fileInputs]
  | cons txin vin ih =>
    obtain ⟨fresh, rest⟩ := nodup_cons.mp distinct
    rw [fileInputs, ih rest, lookup_insert_eq]
    constructor
    · rintro (⟨n, there, rfl⟩ | ⟨absent, found⟩)
      · exact Or.inl ⟨n + 1, by simpa using there, by simp; omega⟩
      split at found
      · rename_i equal
        cases found
        exact Or.inl ⟨0, by simp [equal], rfl⟩
      · rename_i apart
        exact Or.inr ⟨by simp [apart] at absent ⊢; exact absent, found⟩
    rintro (⟨n, there, rfl⟩ | ⟨absent, found⟩)
    · cases n with
      | zero =>
        simp only [map_cons, List.getElem?_cons_zero, Option.some.injEq] at there
        subst there
        exact Or.inr ⟨fresh, by simp⟩
      | succ n =>
        refine Or.inl ⟨n, by simpa using there, ?_⟩
        simp only [CInPoint.mk.injEq, true_and]
        omega
    · rw [map_cons, mem_cons, not_or] at absent
      exact Or.inr ⟨absent.2, by rw [if_neg absent.1]; exact found⟩

end CTxMemPool

theorem PoolExact.addUnchecked {pool : CTxMemPool} (h : PoolExact pool) {entry : CTxMemPoolEntry}
    (admits : pool.Admits entry.tx) : PoolExact (pool.addUnchecked entry.tx.getHash entry) := by
  obtain ⟨absent, distinct, unspent⟩ := admits
  have fresh : pool.mapTx.lookup entry.tx.getHash = none :=
    (contains_eq_false_iff _ _).mp absent
  refine ⟨?_, ?_, ?_⟩
  · intro hash other found
    rw [CTxMemPool.addUnchecked, lookup_insert_eq] at found
    split at found
    · rename_i equal
      cases found
      exact equal.symm
    · exact h.filed hash other found
  · intro prevout hash n
    rw [CTxMemPool.addUnchecked, CTxMemPool.lookup_fileInputs distinct, lookup_insert_eq]
    constructor
    · rintro (⟨m, here, equal⟩ | ⟨-, found⟩)
      · rw [Nat.zero_add] at equal
        cases equal
        exact ⟨entry, if_pos rfl, here⟩
      obtain ⟨other, known, there⟩ := (h.spent prevout hash n).mp found
      have apart : hash ≠ entry.tx.getHash := by
        rintro rfl
        rw [fresh] at known
        cases known
      exact ⟨other, by rw [if_neg apart]; exact known, there⟩
    · rintro ⟨other, known, there⟩
      split at known
      · rename_i equal
        cases known
        exact Or.inl ⟨n, there, by rw [Nat.zero_add, equal]⟩
      have found := (h.spent prevout hash n).mpr ⟨other, known, there⟩
      refine Or.inr ⟨fun member => ?_, found⟩
      rw [unspent prevout member] at found
      cases found
  · have larger := total_insert pool.mapTx entry.tx.getHash entry
      fun _ entry => entry.nTxSize
    rw [erase_of_absent fresh, ← h.size] at larger
    exact larger.symm

/-! ## Removing -/

theorem PoolExact.removeEntry {pool : CTxMemPool} (h : PoolExact pool) {hash : UInt256}
    {entry : CTxMemPoolEntry} (found : pool.mapTx.lookup hash = some entry) :
    PoolExact (pool.removeEntry hash entry) := by
  refine ⟨?_, ?_, ?_⟩
  · intro other e known
    rw [CTxMemPool.removeEntry, lookup_erase_eq] at known
    split at known
    · cases known
    · exact h.filed other e known
  · intro prevout other n
    rw [CTxMemPool.removeEntry, lookup_eraseAll, lookup_erase_eq]
    constructor
    · intro spent
      split at spent
      · cases spent
      rename_i kept
      obtain ⟨e, known, there⟩ := (h.spent prevout other n).mp spent
      have apart : other ≠ hash := by
        rintro rfl
        rw [found, Option.some_inj] at known
        subst known
        exact kept (mem_of_getElem? there)
      exact ⟨e, by rw [if_neg apart]; exact known, there⟩
    · rintro ⟨e, known, there⟩
      split at known
      · cases known
      rename_i apart
      have kept : prevout ∉ entry.tx.prevouts := by
        intro member
        obtain ⟨m, here⟩ := mem_iff_getElem?.mp member
        exact apart (h.unique known found there here).1
      rw [if_neg kept]
      exact (h.spent prevout other n).mpr ⟨e, known, there⟩
  · have smaller := total_erase found fun _ entry => entry.nTxSize
    rw [← h.size] at smaller
    exact Nat.sub_eq_of_eq_add smaller.symm

namespace CTxMemPool

/-- The pool `pool'` is `pool` with some entries taken out. -/
def Within (pool' pool : CTxMemPool) : Prop :=
  ∀ hash entry, pool'.mapTx.lookup hash = some entry → pool.mapTx.lookup hash = some entry

theorem Within.refl (pool : CTxMemPool) : pool.Within pool := fun _ _ found => found

theorem Within.next {pool₁ pool₂ pool₃ : CTxMemPool} (h₁ : pool₁.Within pool₂)
    (h₂ : pool₂.Within pool₃) : pool₁.Within pool₃ :=
  fun hash entry found => h₂ hash entry (h₁ hash entry found)

/-- The transaction is in `pool` and no longer in `pool'`. -/
def TakenOut (pool pool' : CTxMemPool) (tx : CTransaction) : Prop :=
  ∃ hash entry, pool.mapTx.lookup hash = some entry ∧ pool'.mapTx.lookup hash = none ∧ entry.tx = tx

/-- Whatever spends from one of these transactions waits in the queue. -/
def Covered (pool : CTxMemPool) (gone : List CTransaction) (queue : List UInt256) : Prop :=
  ∀ parent ∈ gone, ∀ hash entry, pool.mapTx.lookup hash = some entry →
    entry.tx.SpendsFrom parent → hash ∈ queue

variable {pool pool' : CTxMemPool} {hash : UInt256} {entry : CTxMemPoolEntry}

theorem Within.absent (within : pool'.Within pool) (absent : pool.mapTx.lookup hash = none) :
    pool'.mapTx.lookup hash = none := by
  cases still : pool'.mapTx.lookup hash with
  | none => rfl
  | some e =>
    rw [within hash e still] at absent
    cases absent

theorem absent_removeEntry : (pool.removeEntry hash entry).mapTx.lookup hash = none := by
  rw [removeEntry, lookup_erase_eq, if_pos rfl]

theorem within_removeEntry : (pool.removeEntry hash entry).Within pool := by
  intro other e known
  rw [removeEntry, lookup_erase_eq] at known
  split at known
  · cases known
  · exact known

/-- What a loop behind `removeEntry` takes out, and the entry before it. -/
theorem takenOut_removeEntry (found : pool.mapTx.lookup hash = some entry)
    (within : pool'.Within (pool.removeEntry hash entry)) (tx : CTransaction) :
    pool.TakenOut pool' tx ↔ tx = entry.tx ∨ (pool.removeEntry hash entry).TakenOut pool' tx := by
  constructor
  · rintro ⟨other, e, known, gone, rfl⟩
    by_cases same : other = hash
    · subst same
      obtain rfl := Option.some.inj (known.symm.trans found)
      exact Or.inl rfl
    · refine Or.inr ⟨other, e, ?_, gone, rfl⟩
      rw [removeEntry, lookup_erase_eq, if_neg same]
      exact known
  · rintro (rfl | ⟨other, e, known, gone, rfl⟩)
    · exact ⟨hash, entry, found, within.absent absent_removeEntry, rfl⟩
    · exact ⟨other, e, within_removeEntry other e known, gone, rfl⟩

/-- All pointers lead into the pool, and all children are found. -/
theorem childHashes_of_exact (h : PoolExact pool) (hash : UInt256) (outputs : List Nat) :
    ∃ children, pool.childHashes hash outputs = some children ∧
      ∀ child e, pool.mapTx.lookup child = some e →
        (∃ i ∈ outputs, (⟨hash, UInt32.ofNat i⟩ : COutPoint) ∈ e.tx.prevouts) →
          child ∈ children := by
  induction outputs with
  | nil => exact ⟨[], rfl, fun child e _ ⟨i, member, _⟩ => absurd member not_mem_nil⟩
  | cons i outputs ih =>
    obtain ⟨children, hchildren, complete⟩ := ih
    unfold childHashes
    cases spent : pool.mapNextTx.lookup ⟨hash, UInt32.ofNat i⟩ with
    | none =>
      refine ⟨children, hchildren, ?_⟩
      rintro child e known ⟨j, member, spends⟩
      rcases mem_cons.mp member with rfl | member
      · obtain ⟨n, here⟩ := mem_iff_getElem?.mp spends
        rw [(h.spent _ child n).mpr ⟨e, known, here⟩] at spent
        cases spent
      · exact complete child e known ⟨j, member, spends⟩
    | some inPoint =>
      obtain ⟨ptx, n⟩ := inPoint
      obtain ⟨spender, hspender, -⟩ := (h.spent _ ptx n).mp spent
      refine ⟨spender.tx.getHash :: children, by simp [hspender, hchildren], ?_⟩
      rintro child e known ⟨j, member, spends⟩
      rcases mem_cons.mp member with rfl | member
      · obtain ⟨m, here⟩ := mem_iff_getElem?.mp spends
        have same := (h.spent _ child m).mpr ⟨e, known, here⟩
        rw [spent] at same
        have equal : ptx = child := by simpa using congrArg (Option.map CInPoint.ptx) same
        rw [h.filed ptx spender hspender, equal]
        exact mem_cons_self
      · exact mem_cons_of_mem _ (complete child e known ⟨j, member, spends⟩)

/-- Taking an entry out whose spenders are put into the queue. -/
theorem Covered.removeEntry {gone : List CTransaction} {queue children : List UInt256}
    (covered : pool.Covered gone (hash :: queue))
    (found : pool.mapTx.lookup hash = some entry)
    (complete : ∀ child e, pool.mapTx.lookup child = some e → e.tx.SpendsFrom entry.tx →
      child ∈ children) :
    (pool.removeEntry hash entry).Covered (gone ++ [entry.tx]) (queue ++ children) := by
  intro parent member child e known spends
  have before := within_removeEntry child e known
  have apart : child ≠ hash := by
    rintro rfl
    rw [absent_removeEntry] at known
    cases known
  rcases mem_append.mp member with old | new
  · rcases mem_cons.mp (covered parent old child e before spends) with equal | waiting
    · exact absurd equal apart
    · exact mem_append_left _ waiting
  · rw [mem_singleton.mp new] at spends
    exact mem_append_right _ (complete child e before spends)

section

variable (h : PoolExact pool)
include h

theorem removeLoop_spec (fRecursive : Bool) (removed : List CTransaction) (queue : List UInt256) :
    ∃ pool' news, removeLoop fRecursive pool removed queue = some (pool', removed ++ news) ∧
      PoolExact pool' ∧ pool'.Within pool ∧ (∀ hash ∈ queue, pool'.mapTx.lookup hash = none) ∧
      (∀ tx, tx ∈ news ↔ pool.TakenOut pool' tx) ∧
      (fRecursive = true → ∀ gone, pool.Covered gone queue → pool'.Covered (gone ++ news) []) := by
  fun_induction removeLoop fRecursive pool removed queue with
  | case1 pool removed =>
    refine ⟨pool, [], by simp, h, Within.refl pool, by simp, fun tx => ?_, fun _ gone covered => ?_⟩
    · refine iff_of_false not_mem_nil fun ⟨hash, entry, known, absent, _⟩ => ?_
      rw [absent] at known
      cases known
    · rw [append_nil]
      exact covered
  | case2 pool removed hash queue absent ih =>
    obtain ⟨pool', news, result, exact', within, gone', takes, covers⟩ := ih h
    refine ⟨pool', news, result, exact', within, ?_, takes, fun recursive gone covered => ?_⟩
    · intro other member
      rcases mem_cons.mp member with rfl | member
      · exact within.absent absent
      · exact gone' other member
    refine covers recursive gone fun parent member child e known spends => ?_
    rcases mem_cons.mp (covered parent member child e known spends) with rfl | waiting
    · rw [absent] at known
      cases known
    · exact waiting
  | case3 pool removed hash queue entry found none =>
    obtain ⟨children, hchildren, -⟩ :=
      childHashes_of_exact h hash (List.range entry.tx.vout.length)
    cases fRecursive <;> simp [hchildren] at none
  | case4 pool removed hash queue entry found children hchildren ih =>
    obtain ⟨pool', news, result, exact', within, gone', takes, covers⟩ := ih (h.removeEntry found)
    refine ⟨pool', entry.tx :: news, by simpa using result, exact',
      within.next within_removeEntry, ?_, fun tx => ?_, fun recursive gone covered => ?_⟩
    · intro other member
      rcases mem_cons.mp member with rfl | member
      · exact within.absent absent_removeEntry
      · exact gone' other (mem_append_left _ member)
    · rw [takenOut_removeEntry found within, mem_cons, takes]
    subst recursive
    obtain ⟨children', hchildren', complete⟩ :=
      childHashes_of_exact h hash (List.range entry.tx.vout.length)
    rw [dif_pos rfl, hchildren', Option.some_inj] at hchildren
    subst hchildren
    have hash_eq := h.filed hash entry found
    have next := covers rfl (gone ++ [entry.tx]) <| covered.removeEntry found
      fun child e known ⟨i, bound, spends⟩ =>
        complete child e known ⟨i, mem_range.mpr bound, hash_eq ▸ spends⟩
    simpa using next

/-- `remove` never fails on an exact pool. What it takes out is put behind `removed`, and after a
recursive call nothing in the pool spends from what is gone. -/
theorem remove_spec (origTx : CTransaction) (removed : List CTransaction) (fRecursive : Bool) :
    ∃ pool' news, pool.remove origTx removed fRecursive = some (pool', removed ++ news) ∧
      PoolExact pool' ∧ pool'.Within pool ∧ pool'.mapTx.lookup origTx.getHash = none ∧
      (∀ tx, tx ∈ news ↔ pool.TakenOut pool' tx) ∧
      (fRecursive = true → ∀ parent,
        parent ∈ news ∨ (parent = origTx ∧ pool.contains origTx.getHash = false) →
          ∀ hash entry, pool'.mapTx.lookup hash = some entry → ¬ entry.tx.SpendsFrom parent) := by
  obtain ⟨children, hchildren, complete⟩ :=
    childHashes_of_exact h origTx.getHash (List.range origTx.vout.length)
  unfold remove
  by_cases walked : fRecursive = true ∧ pool.contains origTx.getHash = false
  · obtain ⟨recursive, absent⟩ := walked
    obtain ⟨pool', news, result, exact', within, gone', takes, covers⟩ :=
      removeLoop_spec h fRecursive removed (origTx.getHash :: children)
    subst recursive
    refine ⟨pool', news, by simp [absent, hchildren, result], exact', within,
      gone' _ mem_cons_self, takes, fun _ parent among hash entry known spends => ?_⟩
    have covered : pool.Covered [origTx] (origTx.getHash :: children) := by
      intro parent member child e known spends
      rw [mem_singleton.mp member] at spends
      obtain ⟨i, bound, spends⟩ := spends
      exact mem_cons_of_mem _ (complete child e known ⟨i, mem_range.mpr bound, spends⟩)
    have member : parent ∈ [origTx] ++ news := by
      rcases among with new | ⟨rfl, -⟩
      · exact mem_append_right _ new
      · exact mem_append_left _ (mem_singleton_self _)
    exact absurd (covers rfl [origTx] covered parent member hash entry known spends)
      not_mem_nil
  · obtain ⟨pool', news, result, exact', within, gone', takes, covers⟩ :=
      removeLoop_spec h fRecursive removed [origTx.getHash]
    have queue : (if fRecursive && !pool.contains origTx.getHash then
        pool.childHashes origTx.getHash (List.range origTx.vout.length) else some []) = some [] := by
      rw [if_neg]
      intro both
      simp only [Bool.and_eq_true, Bool.not_eq_true'] at both
      exact walked both
    refine ⟨pool', news, by rw [queue]; exact result, exact', within,
      gone' _ (mem_singleton_self _), takes,
      fun recursive parent among hash entry known spends => ?_⟩
    rcases among with new | ⟨-, absent⟩
    · have covered : pool.Covered [] [origTx.getHash] := fun _ member => absurd member not_mem_nil
      exact absurd (covers recursive [] covered parent new hash entry known spends)
        not_mem_nil
    · exact absurd ⟨recursive, absent⟩ walked

theorem removeSpenders_spec (tx : CTransaction) (removed : List CTransaction) (vin : List CTxIn) :
    ∃ result, removeSpenders tx pool removed vin = some result ∧ PoolExact result.1 := by
  induction vin generalizing pool removed with
  | nil => exact ⟨(pool, removed), rfl, h⟩
  | cons txin vin ih =>
    unfold removeSpenders
    cases spent : pool.mapNextTx.lookup txin.prevout with
    | none => exact ih h removed
    | some inPoint =>
      obtain ⟨ptx, n⟩ := inPoint
      obtain ⟨txConflict, known, -⟩ := (h.spent _ ptx n).mp spent
      simp only [known, Option.bind_some]
      by_cases other : txConflict.tx.getHash ≠ tx.getHash
      · obtain ⟨pool', news, result, exact', -⟩ := remove_spec h txConflict.tx removed true
        rw [if_pos other, result]
        exact ih exact' (removed ++ news)
      · rw [if_neg other]
        exact ih h removed

theorem removeConflicts_spec (tx : CTransaction) (removed : List CTransaction) :
    ∃ result, pool.removeConflicts tx removed = some result ∧ PoolExact result.1 :=
  removeSpenders_spec h tx removed tx.vin

theorem removeForBlock_spec (conflicts vtx : List CTransaction) :
    ∃ result, pool.removeForBlock conflicts vtx = some result ∧ PoolExact result.1 := by
  induction vtx generalizing pool conflicts with
  | nil => exact ⟨(pool, conflicts), rfl, h⟩
  | cons tx vtx ih =>
    obtain ⟨pool', news, result, exact', -⟩ := remove_spec h tx [] false
    obtain ⟨left, hleft, exact''⟩ := removeConflicts_spec exact' tx conflicts
    have cleared : PoolExact (left.1.clearPrioritisation tx.getHash) :=
      ⟨exact''.filed, exact''.spent, exact''.size⟩
    obtain ⟨final, hfinal, done⟩ := ih cleared left.2
    exact ⟨final, by simp [removeForBlock, result, hleft, hfinal], done⟩

theorem removeAll_spec (txs : List CTransaction) :
    ∃ pool', pool.removeAll txs = some pool' ∧ PoolExact pool' := by
  induction txs generalizing pool with
  | nil => exact ⟨pool, rfl, h⟩
  | cons tx txs ih =>
    obtain ⟨pool', news, result, exact', -⟩ := remove_spec h tx [] true
    obtain ⟨final, hfinal, done⟩ := ih exact'
    exact ⟨final, by simp [removeAll, result, hfinal], done⟩

end

end CTxMemPool

/-- Every step keeps the maps exact. -/
theorem PoolExact.step {pool pool' : CTxMemPool} (h : PoolExact pool) {action : MempoolAction}
    (done : mempoolStep pool action = some pool') : PoolExact pool' := by
  cases action with
  | addUnchecked entry =>
    simp only [mempoolStep] at done
    split at done
    · rename_i admits
      cases done
      exact h.addUnchecked admits
    · cases done
      exact h
  | remove origTx fRecursive =>
    obtain ⟨final, news, result, exact', -⟩ := CTxMemPool.remove_spec h origTx [] fRecursive
    simp only [mempoolStep, result, Option.map_some, Option.some_inj] at done
    exact done ▸ exact'
  | removeForBlock vtx =>
    obtain ⟨final, result, exact'⟩ := CTxMemPool.removeForBlock_spec h [] vtx
    simp only [mempoolStep, result, Option.map_some, Option.some_inj] at done
    exact done ▸ exact'
  | removeConflicts tx =>
    obtain ⟨final, result, exact'⟩ := CTxMemPool.removeConflicts_spec h tx []
    simp only [mempoolStep, result, Option.map_some, Option.some_inj] at done
    exact done ▸ exact'
  | removeCoinbaseSpends env =>
    obtain ⟨txs, -, removed⟩ := Option.bind_eq_some_iff.mp done
    obtain ⟨final, result, exact'⟩ := CTxMemPool.removeAll_spec h txs
    rw [result, Option.some_inj] at removed
    exact removed ▸ exact'
  | prioritiseTransaction hash dPriorityDelta nFeeDelta =>
    cases done
    exact ⟨h.filed, h.spent, h.size⟩
  | clear =>
    cases done
    exact PoolExact.clear

/-- After any calls `mapNextTx` is exact, nothing is spent twice, the size is right, and a recursive
removal leaves nothing that spends from a transaction that is gone. -/
theorem mempool_consistent {actions : List MempoolAction} {pool : CTxMemPool}
    (reached : StepRun.run (StepRun.orFail mempoolStep) (some .init) actions = some pool) :
    (∀ prevout hash n, pool.mapNextTx.lookup prevout = some ⟨hash, n⟩ ↔
        ∃ entry, pool.mapTx.lookup hash = some entry ∧ entry.tx.prevouts[n]? = some prevout) ∧
      (∀ prevout first second e₁ e₂, pool.mapTx.lookup first = some e₁ →
        pool.mapTx.lookup second = some e₂ → prevout ∈ e₁.tx.prevouts →
          prevout ∈ e₂.tx.prevouts → first = second) ∧
      pool.totalTxSize = (pool.mapTx.total fun _ entry => entry.nTxSize) ∧
      ∀ origTx, ∃ pool' removed, pool.remove origTx [] true = some (pool', removed) ∧
        pool'.Within pool ∧ pool'.contains origTx.getHash = false ∧
        (∀ tx, tx ∈ removed ↔ pool.TakenOut pool' tx) ∧
        ∀ parent, pool.TakenOut pool' parent ∨
            (parent = origTx ∧ pool.contains origTx.getHash = false) →
          ∀ hash entry, pool'.mapTx.lookup hash = some entry → ¬ entry.tx.SpendsFrom parent := by
  have exact : PoolExact pool :=
    StepRun.orFail_invariant (fun _ _ _ h done => h.step done) PoolExact.init reached
  refine ⟨exact.spent, ?_, exact.size, ?_⟩
  · intro prevout first second e₁ e₂ known₁ known₂ member₁ member₂
    obtain ⟨n₁, here⟩ := mem_iff_getElem?.mp member₁
    obtain ⟨n₂, there⟩ := mem_iff_getElem?.mp member₂
    exact (exact.unique known₁ known₂ here there).1
  intro origTx
  obtain ⟨pool', news, result, -, within, absent, takes, gone⟩ :=
    CTxMemPool.remove_spec exact origTx [] true
  refine ⟨pool', news, result, within, ?_, takes, fun parent among =>
    gone rfl parent (among.imp_left (takes parent).mpr)⟩
  rw [CTxMemPool.contains, contains_eq_false_iff]
  exact absent

def parentEntry : CTxMemPoolEntry :=
  ⟨⟨1, 1, [⟨⟨9, 0⟩, [], 0⟩], [⟨5, []⟩], 0, []⟩, 1, 60, 0, 0⟩

/-- A transaction that spends the output of `parentEntry`. -/
def childEntry : CTxMemPoolEntry :=
  ⟨⟨2, 1, [⟨⟨1, 0⟩, [], 0⟩], [⟨4, []⟩], 0, []⟩, 1, 61, 0, 0⟩

def parentAndChild : CTxMemPool :=
  (CTxMemPool.init.addUnchecked 1 parentEntry).addUnchecked 2 childEntry

/-- A transaction that is removed takes the one that spends from it along. -/
theorem mempool_consistent_parentAndChild :
    StepRun.run (StepRun.orFail mempoolStep) (some .init)
        [.addUnchecked parentEntry, .addUnchecked childEntry] = some parentAndChild ∧
      (∀ prevout hash n, parentAndChild.mapNextTx.lookup prevout = some ⟨hash, n⟩ ↔
        ∃ entry, parentAndChild.mapTx.lookup hash = some entry ∧
          entry.tx.prevouts[n]? = some prevout) ∧
      ∃ pool' removed, parentAndChild.remove parentEntry.tx [] true = some (pool', removed) ∧
        parentEntry.tx ∈ removed ∧ childEntry.tx ∈ removed ∧ pool'.mapTx.lookup 2 = none := by
  obtain ⟨spent, -, -, removes⟩ :=
    @mempool_consistent [.addUnchecked parentEntry, .addUnchecked childEntry] parentAndChild rfl
  obtain ⟨pool', removed, result, within, absent, takes, leaves⟩ := removes parentEntry.tx
  have parent : parentAndChild.TakenOut pool' parentEntry.tx :=
    ⟨1, parentEntry, rfl, (contains_eq_false_iff _ _).mp absent, rfl⟩
  have child : pool'.mapTx.lookup 2 = none := by
    by_contra present
    obtain ⟨entry, found⟩ := Option.ne_none_iff_exists'.mp present
    obtain rfl : childEntry = entry := Option.some.inj (within 2 entry found)
    exact leaves parentEntry.tx (.inl parent) 2 childEntry found
      ⟨0, Nat.zero_lt_one, mem_cons_self⟩
  exact ⟨rfl, spent, pool', removed, result, (takes _).mpr parent,
    (takes _).mpr ⟨2, childEntry, rfl, child, rfl⟩, child⟩

end Esbcoin
