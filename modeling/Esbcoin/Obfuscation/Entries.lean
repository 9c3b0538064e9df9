import Esbcoin.Obfuscation.Session

/-!
# The outpoints of a mixing session

The inputs of one entry differ in their outpoints, as `dsi` checks the entry like a transaction
(`src/obfuscation.cpp:221-293`). `AddEntry` looks for an input among those of the other entries by
comparing all of it (`:1039-1051`), so an outpoint comes twice into a pool when the scriptSig or the
sequence differs.
-/

namespace Esbcoin

open List CObfuscationPool

/-- A `dsi` request brings an entry with an outpoint of the pool in an input that differs from the
one of the pool in its scriptSig or its sequence. -/
def MixingCall.Disguised (pool : CObfuscationPool) (call : MixingCall) : Prop :=
  ∃ e, call.BringsEntry pool e ∧
    ∃ s ∈ e.sev, ∃ v ∈ pool.entries, ∃ there ∈ v.sev, there.prevout = s.prevout ∧
      (there.scriptSig ≠ s.scriptSig ∨ there.nSequence ≠ s.nSequence)

/-- No outpoint comes twice, neither in the entries nor in the final transaction. -/
structure SpendsOnce (pool : CObfuscationPool) : Prop where
  entries : pool.outpoints.Nodup
  final : (pool.finalTransaction.vin.map CTxIn.prevout).Nodup

private theorem txIn_ext {a b : CTxIn} (prevout : a.prevout = b.prevout)
    (scriptSig : a.scriptSig = b.scriptSig) (nSequence : a.nSequence = b.nSequence) : a = b := by
  cases a
  cases b
  simp only at prevout scriptSig nSequence
  rw [prevout, scriptSig, nSequence]

namespace MixingCall

variable {pool : CObfuscationPool} {call : MixingCall} {e : CObfuScationEntry}

/-- The inputs of one entry differ in their outpoints. -/
theorem BringsEntry.nodup (brought : call.BringsEntry pool e) :
    (e.sev.map fun s => s.prevout).Nodup := by
  obtain ⟨node, draws, action⟩ := call
  cases action with
  | dsi compatible vin nAmount txCollateral vout =>
    obtain ⟨-, -, -, checked, -, -, sev⟩ := brought
    rw [sev, map_map]
    exact nodup_of_checkEntry checked
  | dsa | dss | checkTimeout | checkForCompleteQueue | reset => exact brought.elim

/-- No input of the entry is, as a whole, one of the pool. -/
theorem BringsEntry.fresh (brought : call.BringsEntry pool e) :
    ∀ s ∈ e.sev, ∀ v ∈ pool.entries, ∀ there ∈ v.sev, there.toCTxIn ≠ s.toCTxIn := by
  obtain ⟨node, draws, action⟩ := call
  cases action with
  | dsi compatible vin nAmount txCollateral vout =>
    obtain ⟨-, -, -, -, right, -, sev⟩ := brought
    intro s input v entry there spent same
    rw [sev] at input
    obtain ⟨txin, member, rfl⟩ := mem_map.mp input
    exact right (Or.inr (Or.inr (Or.inr ⟨txin, member, v, entry, there, spent, same⟩)))
  | dsa | dss | checkTimeout | checkForCompleteQueue | reset => exact brought.elim

theorem BringsEntry.disjoint (brought : call.BringsEntry pool e) (plain : ¬ call.Disguised pool) :
    ∀ o ∈ pool.outpoints, ∀ s ∈ e.sev, o ≠ s.prevout := by
  rintro o old s input rfl
  obtain ⟨v, entry, spent⟩ := mem_flatMap.mp old
  obtain ⟨there, member, same⟩ := mem_map.mp spent
  apply plain
  refine ⟨e, brought, s, input, v, entry, there, member, same, ?_⟩
  by_contra both
  rw [not_or, Decidable.not_not, Decidable.not_not] at both
  exact brought.fresh s input v entry there member (txIn_ext same both.1 both.2)

end MixingCall

namespace CObfuscationPool

variable {pool pool' : CObfuscationPool}

theorem Cleared.spendsOnce (cleared : pool.Cleared) : SpendsOnce pool where
  entries := by
    rw [outpoints, cleared.entries]
    exact nodup_nil
  final := by
    rw [cleared.spends]
    exact nodup_nil

theorem Shrinks.spendsOnce (next : pool.Shrinks pool') (once : SpendsOnce pool) :
    SpendsOnce pool' := by
  rcases next with next | cleared
  · refine ⟨once.entries.sublist next.outpoints, ?_⟩
    rcases next.spends with same | those
    · rw [same]
      exact once.final
    · obtain ⟨picked, perm, some_of⟩ := those
      exact perm.nodup_iff.mp (once.entries.sublist some_of)
  · exact cleared.spendsOnce

end CObfuscationPool

theorem SessionStep.spendsOnce {pool pool' : CObfuscationPool} {call : MixingCall} {max : Int}
    {refused : Prop} (step : SessionStep max refused (call.BringsEntry pool) pool pool')
    (plain : ¬ call.Disguised pool) (once : SpendsOnce pool) : SpendsOnce pool' := by
  have kept : pool'.entries = pool.entries → pool'.finalTransaction = pool.finalTransaction →
      SpendsOnce pool' := by
    intro entries spends
    refine ⟨?_, ?_⟩
    · rw [outpoints, entries]
      exact once.entries
    · rw [spends]
      exact once.final
  cases step with
  | shrinks rest => exact rest.spendsOnce once
  | opens none users collaterals entries spends => exact kept entries spends
  | joins some room users collaterals sessionID sessionDenom entries spends =>
    exact kept entries spends
  | adds e entry ready room agrees rest =>
    refine rest.spendsOnce ⟨?_, once.final⟩
    show (List.flatMap _ (pool.entries ++ [e])).Nodup
    rw [flatMap_append, flatMap_singleton]
    refine nodup_append.mpr ⟨once.entries, entry.nodup, ?_⟩
    intro o old o' new
    obtain ⟨s, input, rfl⟩ := mem_map.mp new
    exact entry.disjoint plain o old s input
  | refuses entry ready equal =>
    subst equal
    exact ⟨once.entries, once.final⟩

/-- As long as no entry is disguised, no outpoint comes twice into the entries of the pool, nor
into the final transaction. -/
theorem mixing_spends_once
    {verifyScript : CScript → CScript → CMutableTransaction → Nat → Bool} (timeMillis : Int)
    (calls : List MixingCall) (own : ∀ call ∈ calls, call.node.fMasterNode = true)
    (plain : StepRun.AllSteps (mixingStep verifyScript) (fun pool call => ¬ call.Disguised pool)
      (.init timeMillis) calls) :
    SpendsOnce (StepRun.run (mixingStep verifyScript) (.init timeMillis) calls) := by
  apply StepRun.AllSteps.invariant
    (P := fun pool call => call.node.fMasterNode = true ∧ ¬ call.Disguised pool)
  · rintro pool call once ⟨isNode, plain⟩
    exact (mixingStep_session verifyScript pool call isNode).spendsOnce plain once
  · exact StepRun.AllSteps.and
      (StepRun.AllSteps.of_forall (fun call member _ => own call member) _) plain
  · exact (cleared_setNull _ timeMillis).spendsOnce

/-- The two users of the sample have joined, and the queue is complete. -/
def sampleReady : List MixingCall :=
  [sampleJoin, sampleJoin, ⟨sampleMixingNode, sampleDraws, .checkForCompleteQueue⟩]

theorem mixing_spends_once_sample :
    SpendsOnce (StepRun.run (mixingStep sampleVerify) (.init 0)
      (sampleReady ++ [sampleEntry 1 0xffffffff (COIN + 1000)])) := by
  refine mixing_spends_once 0 (sampleReady ++ [sampleEntry 1 0xffffffff (COIN + 1000)]) ?_
    ⟨?_, ?_, ?_, ?_, trivial⟩
  · intro call member
    simp only [sampleReady, cons_append, nil_append, mem_cons, not_mem_nil,
      or_false] at member
    rcases member with rfl | rfl | rfl | rfl
    · rfl
    · rfl
    · rfl
    · rfl
  · rintro ⟨e, brought, -⟩
    exact brought
  · rintro ⟨e, brought, -⟩
    exact brought
  · rintro ⟨e, brought, -⟩
    exact brought
  · -- no entry is there yet
    rintro ⟨e, -, s, -, v, entry, -⟩
    cases entry

/-- Two entries that spend one outpoint, in inputs with different sequences: the final transaction
spends it twice. -/
theorem disguised_outpoint_spent_twice :
    ¬ ((StepRun.run (mixingStep sampleVerify) (.init 0)
      (sampleReady ++ [sampleEntry 1 0xffffffff (COIN + 1000),
        sampleEntry 1 0 (COIN + 1000)])).finalTransaction.vin.map CTxIn.prevout).Nodup := by
  have spent : (StepRun.run (mixingStep sampleVerify) (.init 0)
      (sampleReady ++ [sampleEntry 1 0xffffffff (COIN + 1000),
        sampleEntry 1 0 (COIN + 1000)])).finalTransaction.vin.map CTxIn.prevout =
      [⟨1, 1⟩, ⟨1, 1⟩] := by
    decide +kernel
  rw [spent]
  decide

end Esbcoin
