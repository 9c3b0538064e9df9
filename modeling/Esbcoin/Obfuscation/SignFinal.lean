import Esbcoin.Lib.Pairing
import Esbcoin.Obfuscation.Pool

/-!
# A client signs the final transaction

`CObfuscationPool::SignFinalTransaction` (`src/obfuscation.cpp:1261-1336`). The outputs of an entry
are looked for by counting the pairs of equal outputs and by comparing sums of values. What
`SignSignature` leaves in the input is a parameter; whether it succeeds is only logged.
-/

namespace Esbcoin

open Pairing List

namespace CObfuScationEntry

/-- The outputs of the double loop (`obfuscation.cpp:1290-1297`), one for each pair:
`foundOutputs` is their number and `nValue1` the sum of their values. -/
def foundOutputs (e : CObfuScationEntry) (vout : List CTxOut) : List CTxOut :=
  matched e.vout vout

/-- The test on the outputs of an entry (`obfuscation.cpp:1299-1303`). -/
def outputsPresent (e : CObfuScationEntry) (vout : List CTxOut) : Bool :=
  let nValue1 := ((e.foundOutputs vout).map CTxOut.nValue).sum
  let nValue2 := (e.vout.map CTxOut.nValue).sum
  let targetOuputs := e.vout.length
  !(decide ((e.foundOutputs vout).length < targetOuputs) || nValue1 != nValue2)

end CObfuScationEntry

/-- The variables of the loop, and which inputs it signed for which entries. -/
structure SigningRun where
  finalTransaction : CMutableTransaction
  sigs : List CTxIn
  signed : List (CObfuScationEntry × Nat)

section

variable (signSignature : CScript → CMutableTransaction → Nat → CScript)

/-- One input of an entry (`obfuscation.cpp:1274-1322`); `false` is a refusal. -/
def signInput (e : CObfuScationEntry) (s : CTxDSIn) (run : SigningRun) : Bool × SigningRun :=
  match lastPosition s.toCTxIn run.finalTransaction.vin with
  | none => (true, run)
  | some mine =>
    if !e.outputsPresent run.finalTransaction.vout then (false, run)
    else
      let scriptSig := signSignature s.prevPubKey run.finalTransaction mine
      let vin := run.finalTransaction.vin.modify mine fun txin => { txin with scriptSig := scriptSig }
      (true, {
        finalTransaction := { run.finalTransaction with vin := vin }
        sigs := run.sigs ++ vin[mine]?.toList
        signed := run.signed ++ [(e, mine)] })

/-- Signs inputs until one is refused. -/
def signInputs : List (CObfuScationEntry × CTxDSIn) → SigningRun → Bool × SigningRun
  | [], run => (true, run)
  | p :: inputs, run =>
    match signInput signSignature p.1 p.2 run with
    | (false, run) => (false, run)
    | (true, run) => signInputs inputs run

/-- What a call does: the pool, whether it returns true, the signatures for the masternode, and
which inputs were signed for which entries. -/
structure SignFinalResult where
  pool : CObfuscationPool
  ok : Bool
  sent : List CTxIn
  signed : List (CObfuScationEntry × Nat)

/-- The inputs of the client's entries in the order of the loops. -/
def CObfuscationPool.ownInputs (pool : CObfuscationPool) : List (CObfuScationEntry × CTxDSIn) :=
  pool.entries.flatMap fun e => e.sev.map fun s => (e, s)

/-- `CObfuscationPool::SignFinalTransaction` (`obfuscation.cpp:1261-1336`). -/
def CObfuscationPool.signFinalTransaction (env : MixingEnv) (pool : CObfuscationPool)
    (finalTransactionNew : CTransaction) : SignFinalResult :=
  if env.fMasterNode then ⟨pool, false, [], []⟩
  else
    let finalTransaction := CMutableTransaction.ofTransaction finalTransactionNew
    match signInputs signSignature pool.ownInputs ⟨finalTransaction, [], []⟩ with
    | (false, run) =>
      ⟨{ pool with finalTransaction := run.finalTransaction }.setNull env.timeMillis, false, [],
        run.signed⟩
    | (true, run) =>
      ⟨{ pool with finalTransaction := run.finalTransaction }, true, run.sigs, run.signed⟩

end

/-! ## What the test asks -/

theorem CObfuScationEntry.outputsPresent_iff (e : CObfuScationEntry) (vout : List CTxOut) :
    e.outputsPresent vout = true ↔ MakesUp CTxOut.nValue e.vout vout := by
  rw [makesUp_iff]
  unfold outputsPresent foundOutputs
  simp

/-! ## Which inputs are signed -/

section Signed

variable {signSignature : CScript → CMutableTransaction → Nat → CScript} {tx : CMutableTransaction}

/-- The input is in the transaction, and the outputs of its entry do not add up. -/
def Refuses (tx : CMutableTransaction) (p : CObfuScationEntry × CTxDSIn) : Prop :=
  p.2.toCTxIn ∈ tx.vin ∧ ¬ MakesUp CTxOut.nValue p.1.vout tx.vout

instance (tx : CMutableTransaction) (p : CObfuScationEntry × CTxDSIn) :
    Decidable (Refuses tx p) := inferInstanceAs (Decidable (_ ∧ _))

/-- The inputs in front of the first one that makes the client refuse. -/
def inFront (tx : CMutableTransaction) (inputs : List (CObfuScationEntry × CTxDSIn)) :
    List (CObfuScationEntry × CTxDSIn) := inputs.takeWhile fun p => !decide (Refuses tx p)

/-- The transaction of the loop differs from the one that came in scripts of inputs with one of the
outpoints `done`. -/
structure SignedPart (tx : CMutableTransaction) (done : List COutPoint)
    (now : CMutableTransaction) : Prop where
  vout : now.vout = tx.vout
  prevouts : now.vin.map CTxIn.prevout = tx.vin.map CTxIn.prevout
  vin : ∀ i : Nat, now.vin[i]? = tx.vin[i]? ∨ ∃ txin, tx.vin[i]? = some txin ∧ txin.prevout ∈ done

variable {done : List COutPoint} {now : CMutableTransaction}

theorem SignedPart.getElem?_iff (part : SignedPart tx done now) {s : CTxIn} (new : s.prevout ∉ done)
    (i : Nat) : now.vin[i]? = some s ↔ tx.vin[i]? = some s := by
  rcases part.vin i with same | ⟨txin, was, inDone⟩
  · rw [same]
  have prevout := congrArg (fun l => l[i]?) part.prevouts
  simp only [List.getElem?_map, was, Option.map_some] at prevout
  constructor
  · intro here
    rw [here, Option.map_some] at prevout
    exact absurd (Option.some.inj prevout ▸ inDone) new
  · intro here
    rw [was] at here
    exact absurd (Option.some.inj here ▸ inDone) new

theorem SignedPart.lastPosition_eq (part : SignedPart tx done now) {s : CTxIn}
    (new : s.prevout ∉ done) : lastPosition s now.vin = lastPosition s tx.vin :=
  lastPosition_congr (by simpa using congrArg List.length part.prevouts) (part.getElem?_iff new)

/-- Signing an input is one more part. -/
theorem SignedPart.sign (part : SignedPart tx done now) (s : CTxIn) (mine : Nat)
    (scriptSig : CScript) (here : tx.vin[mine]? = some s) :
    SignedPart tx (s.prevout :: done) { now with
      vin := now.vin.modify mine fun txin => { txin with scriptSig := scriptSig } } where
  vout := part.vout
  prevouts := by
    rw [← part.prevouts]
    apply ext_getElem?
    intro i
    rw [List.getElem?_map, List.getElem?_map, List.getElem?_modify]
    cases now.vin[i]? with
    | none => rfl
    | some txin =>
      split
      · rfl
      · rfl
  vin := by
    intro i
    by_cases equal : mine = i
    · exact Or.inr ⟨s, equal ▸ here, mem_cons_self⟩
    show (now.vin.modify mine _)[i]? = _ ∨ _
    simp only [List.getElem?_modify, if_neg equal, Option.map_eq_map, Option.map_id']
    rcases part.vin i with same | ⟨txin, was, inDone⟩
    · exact Or.inl same
    · exact Or.inr ⟨txin, was, mem_cons_of_mem _ inDone⟩

/-- Where the outpoints of the inputs differ, those in front of the first refusal that stand in the
transaction are signed. -/
theorem signInputs_signed (inputs : List (CObfuScationEntry × CTxDSIn)) (run : SigningRun)
    (done : List COutPoint) (part : SignedPart tx done run.finalTransaction)
    (distinct : (inputs.map fun p => p.2.prevout).Nodup)
    (new : ∀ p ∈ inputs, p.2.prevout ∉ done) :
    (signInputs signSignature inputs run).2.signed.map Prod.fst = run.signed.map Prod.fst ++
      ((inFront tx inputs).filter fun p => p.2.toCTxIn ∈ tx.vin).map Prod.fst := by
  induction inputs generalizing run done with
  | nil => simp [signInputs, inFront]
  | cons p inputs ih =>
    obtain ⟨notLater, distinct⟩ := nodup_cons.mp distinct
    obtain ⟨newFirst, new⟩ := forall_mem_cons.mp new
    have mineEq : lastPosition p.2.toCTxIn run.finalTransaction.vin = lastPosition p.2.toCTxIn tx.vin :=
      part.lastPosition_eq newFirst
    rw [signInputs, signInput, mineEq, inFront, takeWhile_cons]
    cases found : lastPosition p.2.toCTxIn tx.vin with
    | none =>
      have absent := lastPosition_eq_none_iff.mp found
      rw [if_pos (by simp [Refuses, absent]), filter_cons_of_neg (by simpa using absent)]
      exact ih run done part distinct new
    | some mine =>
      have here := lastPosition_spec found
      have present : p.2.toCTxIn ∈ tx.vin := mem_of_getElem? here
      by_cases adds : MakesUp CTxOut.nValue p.1.vout tx.vout
      · have test : p.1.outputsPresent run.finalTransaction.vout = true := by
          rw [part.vout]
          exact (p.1.outputsPresent_iff tx.vout).mpr adds
        rw [test]
        simp only [Bool.not_true, Bool.false_eq_true, if_false]
        rw [if_pos (by simp [Refuses, adds]), filter_cons_of_pos (by simpa using present)]
        have rest := ih { run with
            finalTransaction := { run.finalTransaction with
              vin := run.finalTransaction.vin.modify mine fun txin => { txin with
                scriptSig := signSignature p.2.prevPubKey run.finalTransaction mine } }
            sigs := run.sigs ++ (run.finalTransaction.vin.modify mine fun txin => { txin with
              scriptSig := signSignature p.2.prevPubKey run.finalTransaction mine })[mine]?.toList
            signed := run.signed ++ [(p.1, mine)] }
          (p.2.prevout :: done) (part.sign p.2.toCTxIn mine _ here) distinct (by
            intro q member inDone
            rcases mem_cons.mp inDone with same | before
            · exact notLater (mem_map.mpr ⟨q, member, same⟩)
            · exact new q member before)
        rw [rest, map_append, append_assoc]
        rfl
      · have test : p.1.outputsPresent run.finalTransaction.vout = false := by
          rw [part.vout, Bool.eq_false_iff, Ne, p.1.outputsPresent_iff tx.vout]
          exact adds
        rw [test]
        simp only [Bool.not_false, if_true]
        rw [if_neg (by simp [Refuses, adds, present])]
        simp

end Signed

/-! ## Only what is contained is signed -/

/-- What a client's wallet puts into its entries: every input once, and outputs of a value
(`wallet.cpp:2612-2725`). -/
structure CObfuscationPool.OfWallet (pool : CObfuscationPool) : Prop where
  inputs : (pool.ownInputs.map fun p => p.2.prevout).Nodup
  outputs : ∀ e ∈ pool.entries, ∀ out ∈ e.vout, 0 < out.nValue

theorem CObfuscationPool.mem_entries_of_ownInputs {pool : CObfuscationPool}
    {p : CObfuScationEntry × CTxDSIn} (member : p ∈ pool.ownInputs) : p.1 ∈ pool.entries := by
  obtain ⟨e, inEntries, inSev⟩ := mem_flatMap.mp member
  obtain ⟨s, -, rfl⟩ := mem_map.mp inSev
  exact inEntries

/-- The entries that inputs were signed for are those of the inputs in front of a refusal that stand
in the transaction. -/
theorem signFinalTransaction_signed (signSignature : CScript → CMutableTransaction → Nat → CScript)
    (env : MixingEnv) {pool : CObfuscationPool} (tx : CTransaction) (client : env.fMasterNode = false)
    (wallet : pool.OfWallet) :
    (pool.signFinalTransaction signSignature env tx).signed.map Prod.fst =
      ((inFront (.ofTransaction tx) pool.ownInputs).filter fun p =>
        p.2.toCTxIn ∈ tx.vin).map Prod.fst := by
  have run : (signInputs signSignature pool.ownInputs ⟨.ofTransaction tx, [], []⟩).2.signed.map
      Prod.fst = _ :=
    signInputs_signed pool.ownInputs _ [] ⟨rfl, rfl, fun _ => Or.inl rfl⟩ wallet.inputs (by simp)
  unfold CObfuscationPool.signFinalTransaction
  rw [client]
  simp only [Bool.false_eq_true, if_false]
  split
  · rename_i result
    rw [result] at run
    exact run
  · rename_i result
    rw [result] at run
    exact run

/-- Every input signed is of an entry whose outputs are all in the final transaction exactly when
each input in front of a refusal is of an entry with different outputs, each there once. -/
theorem signs_contained_iff (signSignature : CScript → CMutableTransaction → Nat → CScript)
    (env : MixingEnv) {pool : CObfuscationPool} (tx : CTransaction) (client : env.fMasterNode = false)
    (wallet : pool.OfWallet) :
    (∀ p ∈ (pool.signFinalTransaction signSignature env tx).signed, p.1.vout.Subperm tx.vout) ↔
      ∀ p ∈ inFront (.ofTransaction tx) pool.ownInputs, p.2.toCTxIn ∈ tx.vin →
        OnceEach p.1.vout tx.vout := by
  have signed := signFinalTransaction_signed signSignature env tx client wallet
  have inEntry : ∀ p ∈ inFront (.ofTransaction tx) pool.ownInputs, p.2.toCTxIn ∈ tx.vin →
      (p.1.vout.Subperm tx.vout ↔ OnceEach p.1.vout tx.vout) := by
    intro p member present
    have own := CObfuscationPool.mem_entries_of_ownInputs ((List.takeWhile_prefix _).subset member)
    have passes := mem_takeWhile_imp member
    refine subperm_iff_onceEach (wallet.outputs p.1 own) ?_
    by_contra not
    have refuses : Refuses (.ofTransaction tx) p := ⟨present, not⟩
    simp [refuses] at passes
  constructor
  · intro contained p member present
    have isSigned : p.1 ∈ (pool.signFinalTransaction signSignature env tx).signed.map Prod.fst := by
      rw [signed]
      exact mem_map_of_mem (mem_filter.mpr ⟨member, by simpa using present⟩)
    obtain ⟨q, inSigned, same⟩ := mem_map.mp isSigned
    exact (inEntry p member present).mp (same ▸ contained q inSigned)
  intro once q inSigned
  have isFront := mem_map_of_mem (f := Prod.fst) inSigned
  rw [signed] at isFront
  obtain ⟨p, member, same⟩ := mem_map.mp isFront
  obtain ⟨member, present⟩ := mem_filter.mp member
  have present : p.2.toCTxIn ∈ tx.vin := by simpa using present
  rw [← same]
  exact (inEntry p member present).mpr (once p member present)

def sampleClient : CObfuscationPool :=
  { CObfuscationPool.init 0 with
    entries := [⟨[{ prevout := ⟨1, 0⟩ }], [⟨1000, [1]⟩, ⟨1000, [2]⟩], 2000, .empty, 0⟩] }

def sampleFinal (vout : List CTxOut) : CTransaction := ⟨7, 1, [{ prevout := ⟨1, 0⟩ }], vout, 0, []⟩

theorem sampleClient_ofWallet : sampleClient.OfWallet where
  inputs := by decide
  outputs := by decide

theorem signs_contained_sample :
    (sampleClient.signFinalTransaction (fun _ _ _ => [0x51]) ⟨false, 3, 0, 0⟩
        (sampleFinal [⟨1000, [2]⟩, ⟨500, [3]⟩, ⟨1000, [1]⟩])).signed ≠ [] ∧
    ∀ p ∈ (sampleClient.signFinalTransaction (fun _ _ _ => [0x51]) ⟨false, 3, 0, 0⟩
        (sampleFinal [⟨1000, [2]⟩, ⟨500, [3]⟩, ⟨1000, [1]⟩])).signed,
      p.1.vout.Subperm (sampleFinal [⟨1000, [2]⟩, ⟨500, [3]⟩, ⟨1000, [1]⟩]).vout :=
  ⟨by decide, (signs_contained_iff (fun _ _ _ => [0x51]) ⟨false, 3, 0, 0⟩
    (sampleFinal [⟨1000, [2]⟩, ⟨500, [3]⟩, ⟨1000, [1]⟩]) rfl sampleClient_ofWallet).mpr (by
      unfold OnceEach
      decide)⟩

/-- One output twice and the other not at all: the client signs and sends its signature. -/
theorem signs_repeated_output :
    ∃ p ∈ (sampleClient.signFinalTransaction (fun _ _ _ => [0x51]) ⟨false, 3, 0, 0⟩
        (sampleFinal [⟨1000, [1]⟩, ⟨1000, [1]⟩])).signed,
      ¬ p.1.vout.Subperm (sampleFinal [⟨1000, [1]⟩, ⟨1000, [1]⟩]).vout ∧
      (sampleClient.signFinalTransaction (fun _ _ _ => [0x51]) ⟨false, 3, 0, 0⟩
        (sampleFinal [⟨1000, [1]⟩, ⟨1000, [1]⟩])).sent =
          [{ prevout := ⟨1, 0⟩, scriptSig := [0x51] }] := by
  refine ⟨(⟨[{ prevout := ⟨1, 0⟩ }], [⟨1000, [1]⟩, ⟨1000, [2]⟩], 2000, .empty, 0⟩, 0),
    by decide, ?_, by decide⟩
  intro contained
  have there := contained.subset (show (⟨1000, [2]⟩ : CTxOut) ∈
    ([⟨1000, [1]⟩, ⟨1000, [2]⟩] : List CTxOut) by decide)
  revert there
  decide

end Esbcoin
