import Esbcoin.Obfuscation.Entries
import Esbcoin.Script.Checker

/-!
# The signatures of a mixing session

`AddScriptSig` (`src/obfuscation.cpp:1064-1101`) refuses a script that an input of the pool has
already, and `SignatureValid` (`:914-951`) verifies only what equals an input of the pool, script
and all; so nothing that comes is verified. As long as every signature verifies for its input, so
does every input that is marked as signed, and no signature is kept from its input.
-/

namespace Esbcoin

open CObfuScationEntry List CObfuscationPool

/-- An input of some entry. -/
def CObfuscationPool.HasInput (pool : CObfuscationPool) (s : CTxDSIn) : Prop :=
  ∃ v ∈ pool.entries, s ∈ v.sev

/-- A script that an input of the pool has. -/
def CObfuscationPool.HasScriptSig (pool : CObfuscationPool) (scriptSig : CScript) : Prop :=
  ∃ s, pool.HasInput s ∧ s.scriptSig = scriptSig

/-- A signature is stored for an input of the entries, and in the final transaction. -/
structure CObfuscationPool.Stores (pool : CObfuscationPool) (newVin : CTxIn) : Prop where
  entry : ∃ s, pool.HasInput s ∧ s.toCTxIn = newVin ∧ s.fHasSig = true
  final : ∀ txin ∈ pool.finalTransaction.vin, txin.place = newVin.place →
    txin.scriptSig = newVin.scriptSig

section Sound

variable {H : Type} (crypto : SigCrypto H) (scriptOf : COutPoint → CScript)

/-- The input of this place is in the transaction, and verifies there against the script of the
output it spends. -/
structure Verified (tx : CMutableTransaction) (place : COutPoint × UInt32) : Prop where
  there : place ∈ tx.vin.map CTxIn.place
  verifies : ∀ (n : Nat) txin, tx.vin[n]? = some txin → txin.place = place →
    verifyMutable crypto txin.scriptSig (scriptOf place.1) tx n = true

/-- What holds of the signatures of a pool. -/
structure SignaturesSound (pool : CObfuscationPool) : Prop where
  signing : pool.finalTransaction.vin ≠ [] → pool.state = .signing ∨ pool.state = .transmission
  verified : ∀ s, pool.HasInput s → s.fHasSig = true →
    Verified crypto scriptOf pool.finalTransaction s.place

/-- A signature is the copy of a script that an input of the pool has, or verifies for its input of
the final transaction; one for an input that is nowhere verifies by default. -/
def Genuine (pool : CObfuscationPool) (newVin : CTxIn) : Prop :=
  pool.HasScriptSig newVin.scriptSig ∨
    ((∃ s, pool.HasInput s ∧ s.place = newVin.place) →
      newVin.place ∈ pool.finalTransaction.vin.map CTxIn.place) ∧
    ∀ (n : Nat) txin, pool.finalTransaction.vin[n]? = some txin → txin.place = newVin.place →
      verifyMutable crypto newVin.scriptSig (scriptOf newVin.prevout) pool.finalTransaction n = true

/-- The pool behind a signature that comes. -/
def sigStep (pool : CObfuscationPool) (newVin : CTxIn) : CObfuscationPool :=
  (pool.addScriptSig (verifyMutable crypto) newVin).2

/-- Every signature of a `dss` message is genuine when it comes. -/
def MixingCall.GenuineSigs (pool : CObfuscationPool) (call : MixingCall) : Prop :=
  match call.action with
  | .dss _ sigs => StepRun.AllSteps (sigStep crypto) (Genuine crypto scriptOf) pool sigs
  | _ => True

end Sound

/-! ## One signature -/

namespace CObfuscationPool

variable {pool : CObfuscationPool} {newVin : CTxIn}
  {verifyScript : CScript → CScript → CMutableTransaction → Nat → Bool}

theorem signatureValid_of_new (new : ¬ pool.HasScriptSig newVin.scriptSig) :
    pool.signatureValid verifyScript newVin.scriptSig newVin = true := by
  unfold signatureValid
  have nowhere : lastPosition newVin
      ((pool.entries.flatMap CObfuScationEntry.sev).map CTxDSIn.toCTxIn) = none := by
    rw [lastPosition_eq_none_iff]
    intro member
    obtain ⟨s, input, same⟩ := mem_map.mp member
    obtain ⟨v, entry, there⟩ := mem_flatMap.mp input
    exact new ⟨s, ⟨v, entry, there⟩, congrArg CTxIn.scriptSig same⟩
  simp only [nowhere]

variable (verifyScript) in
/-- What `AddScriptSig` does: a script of the pool is refused, any other goes into the final
transaction, and into the first entry that takes it. -/
theorem addScriptSig_eq (pool : CObfuscationPool) (newVin : CTxIn) :
    (pool.HasScriptSig newVin.scriptSig ∧ pool.addScriptSig verifyScript newVin = (false, pool)) ∨
    (¬ pool.HasScriptSig newVin.scriptSig ∧
      pool.addScriptSig verifyScript newVin =
        ((addSigToEntries newVin pool.entries).isSome,
          { pool with
            finalTransaction := signFinal newVin pool.finalTransaction
            entries := (addSigToEntries newVin pool.entries).getD pool.entries })) := by
  have copies :
      (pool.entries.any fun v => v.sev.any fun s => s.scriptSig == newVin.scriptSig) = true ↔
        pool.HasScriptSig newVin.scriptSig := by
    rw [any_eq_true]
    constructor
    · rintro ⟨v, entry, some_input⟩
      obtain ⟨s, there, equal⟩ := any_eq_true.mp some_input
      exact ⟨s, ⟨v, entry, there⟩, eq_of_beq equal⟩
    · rintro ⟨s, ⟨v, entry, there⟩, equal⟩
      exact ⟨v, entry, any_eq_true.mpr ⟨s, there, beq_iff_eq.mpr equal⟩⟩
  unfold addScriptSig
  by_cases copy : pool.HasScriptSig newVin.scriptSig
  · rw [if_pos (copies.mpr copy)]
    exact Or.inl ⟨copy, rfl⟩
  rw [if_neg (fun copied => copy (copies.mp copied)), signatureValid_of_new copy]
  refine Or.inr ⟨copy, ?_⟩
  simp only [Bool.not_true, Bool.false_eq_true, if_false]
  cases addSigToEntries newVin pool.entries with
  | none => rfl
  | some entries => rfl

theorem place_eq_iff {a b : CTxIn} :
    a.place = b.place ↔ b.prevout = a.prevout ∧ a.nSequence = b.nSequence := by
  rw [Prod.mk.injEq]
  exact and_congr_left' eq_comm

/-- The inputs behind `AddSig` are the old ones, but for the signed one. -/
theorem mem_addSigTo {sev sev' : List CTxDSIn}
    (added : addSigTo newVin sev = some sev') :
    ∀ s ∈ sev', s ∈ sev ∨ (s.place = newVin.place ∧ ∃ old ∈ sev, old.place = newVin.place) := by
  induction sev generalizing sev' with
  | nil => cases added
  | cons first sev ih =>
    rw [addSigTo] at added
    split at added
    · rename_i here
      split at added
      · cases added
      obtain rfl := Option.some.inj added
      have place : first.place = newVin.place := place_eq_iff.mpr ⟨here.1.symm, here.2⟩
      intro s member
      rcases mem_cons.mp member with rfl | rest
      · exact Or.inr ⟨place, first, mem_cons_self, place⟩
      · exact Or.inl (mem_cons_of_mem first rest)
    · obtain ⟨rest, more, rfl⟩ := Option.map_eq_some_iff.mp added
      intro s member
      rcases mem_cons.mp member with rfl | later
      · exact Or.inl mem_cons_self
      · rcases ih more s later with old | ⟨place, old, there, same⟩
        · exact Or.inl (mem_cons_of_mem first old)
        · exact Or.inr ⟨place, old, mem_cons_of_mem first there, same⟩

theorem mem_addSigToEntries {entries entries' : List CObfuScationEntry}
    (added : addSigToEntries newVin entries = some entries') :
    ∀ v' ∈ entries', ∀ s ∈ v'.sev, (∃ v ∈ entries, s ∈ v.sev) ∨
      (s.place = newVin.place ∧ ∃ v ∈ entries, ∃ old ∈ v.sev, old.place = newVin.place) := by
  induction entries generalizing entries' with
  | nil => cases added
  | cons e entries ih =>
    rw [addSigToEntries] at added
    cases sig : e.addSig newVin with
    | some e' =>
      simp only [sig, Option.some.injEq] at added
      subst added
      obtain ⟨sev', signed, rfl⟩ := Option.map_eq_some_iff.mp sig
      intro v' member s input
      rcases mem_cons.mp member with rfl | rest
      · rcases mem_addSigTo signed s input with old | ⟨place, old, there, same⟩
        · exact Or.inl ⟨e, mem_cons_self, old⟩
        · exact Or.inr ⟨place, e, mem_cons_self, old, there, same⟩
      · exact Or.inl ⟨v', mem_cons_of_mem e rest, input⟩
    | none =>
      simp only [sig] at added
      obtain ⟨rest, more, rfl⟩ := Option.map_eq_some_iff.mp added
      intro v' member s input
      rcases mem_cons.mp member with rfl | later
      · exact Or.inl ⟨v', mem_cons_self, input⟩
      · rcases ih more v' later s input with ⟨v, entry, old⟩ | ⟨place, v, entry, old, there, same⟩
        · exact Or.inl ⟨v, mem_cons_of_mem e entry, old⟩
        · exact Or.inr ⟨place, v, mem_cons_of_mem e entry, old, there, same⟩

/-- Where `AddSig` puts a signature. -/
theorem stored_addSigTo {sev sev' : List CTxDSIn}
    (added : addSigTo newVin sev = some sev') :
    ∃ s ∈ sev', s.toCTxIn = newVin ∧ s.fHasSig = true := by
  induction sev generalizing sev' with
  | nil => cases added
  | cons first sev ih =>
    rw [addSigTo] at added
    split at added
    · rename_i here
      split at added
      · cases added
      obtain rfl := Option.some.inj added
      refine ⟨_, mem_cons_self, ?_, rfl⟩
      obtain ⟨prevout, nSequence⟩ := here
      simp only [prevout, nSequence]
    · obtain ⟨rest, more, rfl⟩ := Option.map_eq_some_iff.mp added
      obtain ⟨s, there, stored⟩ := ih more
      exact ⟨s, mem_cons_of_mem first there, stored⟩

/-- `AddSig` takes a signature for an input that waits for it. -/
theorem addSigTo_isSome {sev : List CTxDSIn} (distinct : (sev.map fun s => s.prevout).Nodup)
    {s : CTxDSIn} (member : s ∈ sev) (place : s.place = newVin.place)
    (unsigned : s.fHasSig = false) :
    (addSigTo newVin sev).isSome = true := by
  induction sev with
  | nil => cases member
  | cons first sev ih =>
    rw [map_cons, nodup_cons] at distinct
    rw [addSigTo]
    rcases mem_cons.mp member with rfl | later
    · obtain ⟨prevout, nSequence⟩ := place_eq_iff.mp place
      rw [if_pos ⟨prevout.symm, nSequence⟩, unsigned]
      rfl
    have elsewhere : ¬ (first.prevout = newVin.prevout ∧ first.nSequence = newVin.nSequence) := by
      rintro ⟨same, -⟩
      apply distinct.1
      rw [same, (place_eq_iff.mp place).1]
      exact mem_map_of_mem later
    rw [if_neg elsewhere, Option.isSome_map]
    exact ih distinct.2 later

theorem stored_addSigToEntries {entries : List CObfuScationEntry}
    (distinct : ∀ v ∈ entries, (v.sev.map fun s => s.prevout).Nodup) {v : CObfuScationEntry}
    (entry : v ∈ entries) {s : CTxDSIn} (member : s ∈ v.sev) (place : s.place = newVin.place)
    (unsigned : s.fHasSig = false) :
    ∃ entries', addSigToEntries newVin entries = some entries' ∧
      ∃ v' ∈ entries', ∃ s' ∈ v'.sev, s'.toCTxIn = newVin ∧ s'.fHasSig = true := by
  induction entries with
  | nil => cases entry
  | cons e entries ih =>
    rw [addSigToEntries]
    cases sig : addSigTo newVin e.sev with
    | some sev' =>
      have taken : e.addSig newVin = some { e with sev := sev' } := by
        rw [addSig, sig]
        rfl
      simp only [taken]
      exact ⟨_, rfl, _, mem_cons_self, stored_addSigTo sig⟩
    | none =>
      have left : e.addSig newVin = none := by
        rw [addSig, sig]
        rfl
      simp only [left]
      rcases mem_cons.mp entry with rfl | later
      · have some_place := addSigTo_isSome (distinct v mem_cons_self) member place unsigned
        rw [sig] at some_place
        cases some_place
      obtain ⟨entries', added, v', there, stored⟩ :=
        ih (fun w rest => distinct w (mem_cons_of_mem e rest)) later
      rw [added]
      exact ⟨_, rfl, v', mem_cons_of_mem e there, stored⟩

/-- The input at a position of the final transaction, with the signature if it is for that. -/
theorem getElem?_signFinal {tx : CMutableTransaction} {n : Nat} {txin : CTxIn}
    (there : (signFinal newVin tx).vin[n]? = some txin) :
    ∃ old, tx.vin[n]? = some old ∧ txin.place = old.place ∧
      txin.scriptSig = if old.place = newVin.place then newVin.scriptSig else old.scriptSig := by
  unfold signFinal at there
  rw [List.getElem?_map, Option.map_eq_some_iff] at there
  obtain ⟨old, here, result⟩ := there
  refine ⟨old, here, ?_⟩
  by_cases signed : old.place = newVin.place
  · rw [if_pos (place_eq_iff.mp signed)] at result
    subst result
    exact ⟨rfl, (if_pos signed).symm⟩
  · rw [if_neg (fun same => signed (place_eq_iff.mpr same))] at result
    subst result
    exact ⟨rfl, (if_neg signed).symm⟩

theorem signFinal_places (newVin : CTxIn) (tx : CMutableTransaction) :
    (signFinal newVin tx).vin.map CTxIn.place = tx.vin.map CTxIn.place :=
  signFinal_map newVin tx fun _ _ => rfl

theorem signFinal_same (newVin : CTxIn) (tx : CMutableTransaction) :
    tx.toTransaction.SameButScripts (signFinal newVin tx).toTransaction :=
  ⟨rfl, signFinal_places newVin tx, rfl, rfl⟩

end CObfuscationPool

section Keeps

variable {H : Type} {crypto : SigCrypto H} {scriptOf : COutPoint → CScript}
  {pool pool' : CObfuscationPool} {env : MixingEnv} {draws : CheckDraws}

/-- A genuine signature goes into the transaction: what was verified still is. -/
theorem Verified.signFinal {tx : CMutableTransaction} {place : COutPoint × UInt32} {newVin : CTxIn}
    (there : place ∈ tx.vin.map CTxIn.place)
    (old : place ≠ newVin.place → Verified crypto scriptOf tx place)
    (genuine : ∀ (n : Nat) txin, tx.vin[n]? = some txin → txin.place = newVin.place →
      verifyMutable crypto newVin.scriptSig (scriptOf newVin.prevout) tx n = true) :
    Verified crypto scriptOf (CObfuscationPool.signFinal newVin tx) place := by
  refine ⟨?_, fun n txin here same => ?_⟩
  · rw [CObfuscationPool.signFinal_places]
    exact there
  obtain ⟨before, input, place_eq, script⟩ := CObfuscationPool.getElem?_signFinal here
  rw [verifyMutable_congr crypto (CObfuscationPool.signFinal_same newVin tx)]
  have before_place : before.place = place := place_eq.symm.trans same
  by_cases signed : before.place = newVin.place
  · rw [script, if_pos signed]
    have prevout : place.1 = newVin.prevout := congrArg Prod.fst (before_place.symm.trans signed)
    rw [prevout]
    exact genuine n before input signed
  · rw [script, if_neg signed]
    have other : place ≠ newVin.place := fun equal => signed (before_place.trans equal)
    exact (old other).verifies n before input before_place

theorem SignaturesSound.addScriptSig {newVin : CTxIn} (sound : SignaturesSound crypto scriptOf pool)
    (genuine : Genuine crypto scriptOf pool newVin) :
    SignaturesSound crypto scriptOf (sigStep crypto pool newVin) := by
  unfold sigStep
  rcases pool.addScriptSig_eq (verifyMutable crypto) newVin with
    ⟨-, result⟩ | ⟨new, result⟩
  · rw [result]
    exact sound
  obtain ⟨placed, verifies⟩ := genuine.resolve_left new
  rw [result]
  refine ⟨fun some_input => ?_, fun s input marked => ?_⟩
  · refine sound.signing fun empty => some_input ?_
    rw [CObfuscationPool.signFinal, empty]
    rfl
  show Verified crypto scriptOf (CObfuscationPool.signFinal newVin pool.finalTransaction)
    s.place
  have old_or_new : pool.HasInput s ∨
      (s.place = newVin.place ∧ ∃ old, pool.HasInput old ∧ old.place = newVin.place) := by
    obtain ⟨v, entry, there⟩ := input
    cases added : CObfuscationPool.addSigToEntries newVin pool.entries with
    | none =>
      rw [added] at entry
      exact Or.inl ⟨v, entry, there⟩
    | some entries =>
      rw [added] at entry
      rcases CObfuscationPool.mem_addSigToEntries added v entry s there with
        ⟨w, before, old⟩ | ⟨place, w, before, old, same, equal⟩
      · exact Or.inl ⟨w, before, old⟩
      · exact Or.inr ⟨place, old, ⟨w, before, same⟩, equal⟩
  by_cases here : s.place = newVin.place
  · refine Verified.signFinal ?_ (fun other => absurd here other) verifies
    rw [here]
    rcases old_or_new with old | ⟨-, old⟩
    · exact placed ⟨s, old, here⟩
    · exact placed old
  · have old := old_or_new.resolve_right fun new => here new.1
    have before := sound.verified s old marked
    exact Verified.signFinal before.there (fun _ => before) verifies

theorem stores_sigStep {newVin : CTxIn} (distinct : ∀ v ∈ pool.entries,
      (v.sev.map fun s => s.prevout).Nodup)
    (new : ¬ pool.HasScriptSig newVin.scriptSig)
    (waits : ∃ s, pool.HasInput s ∧ s.place = newVin.place ∧ s.fHasSig = false) :
    (sigStep crypto pool newVin).Stores newVin := by
  obtain ⟨s, ⟨v, entry, member⟩, place, unsigned⟩ := waits
  obtain ⟨entries, added, v', there, s', input, stored⟩ :=
    CObfuscationPool.stored_addSigToEntries distinct entry member place unsigned
  unfold sigStep
  rcases pool.addScriptSig_eq (verifyMutable crypto) newVin with
    ⟨copy, -⟩ | ⟨-, result⟩
  · exact absurd copy new
  rw [result, added]
  refine ⟨⟨s', ⟨v', there, input⟩, stored⟩, fun txin final same => ?_⟩
  obtain ⟨n, here⟩ := mem_iff_getElem?.mp final
  obtain ⟨old, -, place_eq, script⟩ := CObfuscationPool.getElem?_signFinal here
  rw [script, if_pos (place_eq.symm.trans same)]

namespace SignaturesSound

theorem of_cleared (cleared : pool.Cleared) : SignaturesSound crypto scriptOf pool where
  signing some_input := absurd cleared.spends some_input
  verified s input _ := by
    obtain ⟨v, entry, -⟩ := input
    rw [cleared.entries] at entry
    cases entry

section

variable (sound : SignaturesSound crypto scriptOf pool)
include sound

/-- No input is marked before there is a final transaction. -/
theorem unsigned (empty : pool.finalTransaction.vin = []) {s : CTxDSIn} (input : pool.HasInput s) :
    s.fHasSig ≠ true := by
  intro marked
  have there := (sound.verified s input marked).there
  rw [empty] at there
  cases there

/-- The final transaction stays, and no input is marked anew. -/
theorem keep (final : pool'.finalTransaction = pool.finalTransaction)
    (inputs : ∀ s, pool'.HasInput s → s.fHasSig = true → pool.HasInput s)
    (state : pool.finalTransaction.vin ≠ [] → pool'.state = pool.state ∨ pool'.state = .signing ∨
      pool'.state = .transmission)
    :
    SignaturesSound crypto scriptOf pool' where
  signing some_input := by
    rw [final] at some_input
    rcases state some_input with same | new
    · rw [same]
      exact sound.signing some_input
    · exact new
  verified s input marked := by
    rw [final]
    exact sound.verified s (inputs s input marked) marked

theorem updateState {newState : PoolStatus}
    (fits : pool.finalTransaction.vin = [] ∨ newState = .signing ∨ newState = .transmission) :
    SignaturesSound crypto scriptOf (CObfuscationPool.updateState env pool newState) := by
  unfold CObfuscationPool.updateState
  split
  · exact sound
  refine sound.keep rfl (fun s input _ => input) fun some_input => ?_
  rcases fits with empty | signing
  · exact absurd empty some_input
  · exact Or.inr signing

end

theorem setNull (timeMillis : Int) : SignaturesSound crypto scriptOf (pool.setNull timeMillis) :=
  of_cleared (pool.cleared_setNull timeMillis)

section

variable (sound : SignaturesSound crypto scriptOf pool)
include sound

/-- In any other state than the two last ones of a session there is no final transaction. -/
theorem empty_of_state (early : pool.state ≠ .signing ∧ pool.state ≠ .transmission) :
    pool.finalTransaction.vin = [] := by
  by_contra some_input
  rcases sound.signing some_input with signing | transmission
  · exact early.1 signing
  · exact early.2 transmission

theorem checkFinalTransaction (outcome : FinalOutcome) :
    SignaturesSound crypto scriptOf (pool.checkFinalTransaction env outcome) := by
  unfold CObfuscationPool.checkFinalTransaction
  split
  · exact sound
  cases outcome with
  | invalid => exact (setNull env.timeMillis).updateState (Or.inl rfl)
  | unsigned => exact sound
  | transmitted => exact setNull env.timeMillis

theorem checkFull :
    SignaturesSound crypto scriptOf (pool.checkFull env) := by
  unfold CObfuscationPool.checkFull
  split
  · rename_i full
    rw [Bool.and_eq_true, Bool.and_eq_true] at full
    have accepting : pool.state = .acceptingEntries := eq_of_beq full.1.2
    refine sound.updateState (Or.inl (sound.empty_of_state ?_))
    rw [accepting]
    exact ⟨nofun, nofun⟩
  · exact sound

theorem checkFinalize :
    SignaturesSound crypto scriptOf (pool.checkFinalize env draws) := by
  unfold CObfuscationPool.checkFinalize
  split
  · rename_i finalize
    have empty : pool.finalTransaction.vin = [] := by
      apply sound.empty_of_state
      rw [finalize]
      exact ⟨nofun, nofun⟩
    have next : CObfuscationPool.updateState env pool .signing =
        { pool with
          lastTimeChanged := if pool.state ≠ .signing then env.timeMillis else pool.lastTimeChanged
          state := .signing } := by
      unfold CObfuscationPool.updateState
      simp
    simp only [next]
    split
    · refine ⟨fun _ => Or.inl rfl, fun s input marked => ?_⟩
      exact absurd marked (sound.unsigned empty input)
    · exact sound.keep rfl (fun s input _ => input) fun _ => Or.inr (Or.inl rfl)
  · exact sound

theorem checkSigned :
    SignaturesSound crypto scriptOf (pool.checkSigned env draws) := by
  unfold CObfuscationPool.checkSigned
  split
  · exact (sound.updateState (Or.inr (Or.inr rfl))).checkFinalTransaction _
  · exact sound

theorem checkEnded :
    SignaturesSound crypto scriptOf (pool.checkEnded env) := by
  unfold CObfuscationPool.checkEnded
  split
  · exact setNull env.timeMillis
  · exact sound

theorem check :
    SignaturesSound crypto scriptOf (pool.check env draws) :=
  sound.checkFull.checkFinalize.checkSigned.checkEnded

theorem dropExpired {kept entries : List CObfuScationEntry}
    (sub : ∀ v ∈ kept ++ entries, v ∈ pool.entries) :
    SignaturesSound crypto scriptOf (CObfuscationPool.dropExpired env kept entries pool) := by
  induction entries generalizing kept with
  | nil =>
    rw [append_nil] at sub
    refine sound.keep rfl (fun s input _ => ?_) fun _ => Or.inl rfl
    obtain ⟨v, entry, there⟩ := input
    exact ⟨v, sub v entry, there⟩
  | cons e entries ih =>
    rw [CObfuscationPool.dropExpired]
    split
    · split
      · exact setNull env.timeMillis
      apply ih
      intro v member
      apply sub
      rw [mem_append] at member ⊢
      exact member.imp_right (mem_cons_of_mem e)
    · apply ih
      rwa [append_assoc]

theorem checkTimeout :
    SignaturesSound crypto scriptOf (pool.checkTimeout env) := by
  have queue : SignaturesSound crypto scriptOf (pool.checkQueueTimeout env) := by
    unfold checkQueueTimeout
    split
    · simp only
      split
      · exact setNull env.timeMillis
      · exact sound.dropExpired fun v member => member
    · split
      · exact (setNull env.timeMillis).updateState (Or.inl rfl)
      · exact sound
  unfold CObfuscationPool.checkTimeout
  simp only
  split
  · exact (setNull env.timeMillis).updateState (Or.inl rfl)
  · exact queue

theorem checkForCompleteQueue :
    SignaturesSound crypto scriptOf (pool.checkForCompleteQueue env) := by
  unfold CObfuscationPool.checkForCompleteQueue
  split
  · rename_i complete
    refine sound.updateState (Or.inl (sound.empty_of_state ?_))
    rw [complete.1]
    exact ⟨nofun, nofun⟩
  · exact sound

theorem isCompatibleWithSession (nobody : pool.sessionUsers ≤ 0 → pool.Cleared) (node : MixingNode)
    (nDenom : Int) (txCollateral : CTransaction) (newID : Int) :
    SignaturesSound crypto scriptOf
      (pool.isCompatibleWithSession node nDenom txCollateral newID).2 := by
  unfold CObfuscationPool.isCompatibleWithSession
  split
  · exact sound
  split
  · exact sound
  by_cases none : pool.sessionUsers ≤ 0
  · have cleared := nobody none
    have zero : (if pool.sessionUsers < 0 then { pool with sessionUsers := 0 } else pool) =
        pool := if_neg (by rw [cleared.sessionUsers]; decide)
    simp only [zero]
    rw [if_pos cleared.sessionUsers]
    have opened : SignaturesSound crypto scriptOf (CObfuscationPool.updateState
        node.toMixingEnv
        { pool with
          sessionID := newID
          sessionDenom := nDenom
          sessionUsers := pool.sessionUsers + 1
          lastTimeChanged := node.timeMillis } .queue) := by
      refine SignaturesSound.updateState ?_ (Or.inl cleared.spends)
      exact sound.keep rfl (fun s input _ => input) fun _ => Or.inl rfl
    exact opened.keep rfl (fun s input _ => input) fun _ => Or.inl rfl
  · rw [if_neg (by omega : ¬ pool.sessionUsers < 0)]
    rw [if_neg (by omega : ¬ pool.sessionUsers = 0)]
    split
    · exact sound
    · split
      · exact sound
      · exact sound.keep rfl (fun s input _ => input) fun _ => Or.inl rfl

theorem processDsi (node : MixingNode) (isNode : node.fMasterNode = true) (compatible : Bool)
    (vin : List CTxIn) (nAmount : Int) (txCollateral : CTransaction) (vout : List CTxOut) :
    SignaturesSound crypto scriptOf
      (pool.processDsi node draws compatible vin nAmount txCollateral vout).2 := by
  unfold CObfuscationPool.processDsi
  split
  · exact sound
  split
  · exact sound
  split
  · exact sound
  split
  · exact sound
  split
  · exact sound
  rcases addEntry_step pool isNode vin nAmount txCollateral vout with
    ⟨-, e, -, sev, result⟩ | ⟨-, errorID, result⟩
  · simp only [result]
    apply SignaturesSound.check
    refine sound.keep rfl (fun s input marked => ?_) fun _ => Or.inl rfl
    obtain ⟨v, entry, there⟩ := input
    rcases mem_append.mp entry with old | new
    · exact ⟨v, old, there⟩
    · rw [mem_singleton.mp new, sev] at there
      obtain ⟨txin, -, rfl⟩ := mem_map.mp there
      cases marked
  · simp only [result]
    exact sound.keep rfl (fun s input _ => input) fun _ => Or.inl rfl

theorem run {sigs : List CTxIn}
    (genuine : StepRun.AllSteps (sigStep crypto) (Genuine crypto scriptOf) pool sigs) :
    SignaturesSound crypto scriptOf (StepRun.run (sigStep crypto) pool sigs) :=
  genuine.invariant (fun _ _ sound genuine => sound.addScriptSig genuine) sound

theorem processDss (compatible : Bool) {sigs : List CTxIn}
    (genuine : StepRun.AllSteps (sigStep crypto) (Genuine crypto scriptOf) pool sigs) :
    SignaturesSound crypto scriptOf
      (pool.processDss (verifyMutable crypto) env draws compatible sigs) := by
  have signed : (pool.addScriptSigs (verifyMutable crypto) sigs).2 =
      StepRun.run (sigStep crypto) pool sigs :=
    (foldl_hom Prod.snd fun _ _ => rfl).symm
  have after := sound.run genuine
  rw [← signed] at after
  unfold CObfuscationPool.processDss
  split
  · exact sound
  split
  · rename_i result
    rw [result] at after
    exact after.check
  · rename_i result
    rw [result] at after
    exact after

end

end SignaturesSound

end Keeps

/-! ## Every run -/

/-- The inputs of an entry differ in their outpoints. -/
def CObfuscationPool.EntriesDistinct (pool : CObfuscationPool) : Prop :=
  ∀ v ∈ pool.entries, (v.sev.map fun s => s.prevout).Nodup

namespace CObfuscationPool

variable {pool pool' : CObfuscationPool}

theorem Shrinks.entriesDistinct (next : pool.Shrinks pool') (distinct : pool.EntriesDistinct) :
    pool'.EntriesDistinct := by
  intro v entry
  rcases next with next | cleared
  · obtain ⟨w, before, same⟩ := mem_map.mp (next.offers.subset (mem_map_of_mem entry))
    have prevouts := congrArg (fun offer => offer.2.map Prod.fst) same
    simp only [offered, map_map, Function.comp_def] at prevouts
    rw [← prevouts]
    exact distinct w before
  · rw [cleared.entries] at entry
    cases entry

theorem entriesDistinct_of_step {call : MixingCall} {max : Int} {refused : Prop}
    (step : SessionStep max refused (call.BringsEntry pool) pool pool')
    (distinct : pool.EntriesDistinct) : pool'.EntriesDistinct := by
  cases step with
  | shrinks rest => exact rest.entriesDistinct distinct
  | opens none users collaterals entries spends =>
    intro v entry
    rw [entries] at entry
    exact distinct v entry
  | joins some room users collaterals sessionID sessionDenom entries spends =>
    intro v entry
    rw [entries] at entry
    exact distinct v entry
  | adds e entry ready room agrees rest =>
    apply rest.entriesDistinct
    intro v member
    rcases mem_append.mp member with old | new
    · exact distinct v old
    · rw [mem_singleton.mp new]
      exact entry.nodup
  | refuses entry ready equal =>
    subst equal
    exact distinct

end CObfuscationPool

section Runs

variable {H : Type} (crypto : SigCrypto H) (scriptOf : COutPoint → CScript) {max : Int}

/-- What every action with genuine signatures keeps. -/
structure SigningSound (max : Int) (pool : CObfuscationPool) : Prop where
  session : SessionSound max pool
  distinct : pool.EntriesDistinct
  signatures : SignaturesSound crypto scriptOf pool

variable {crypto scriptOf}

theorem mixingStep_signingSound (two : 2 ≤ max) {pool : CObfuscationPool} {call : MixingCall}
    (own : OnMasternode max call) (genuine : call.GenuineSigs crypto scriptOf pool)
    (sound : SigningSound crypto scriptOf max pool) :
    SigningSound crypto scriptOf max (mixingStep (verifyMutable crypto) pool call) where
  session := mixingStep_sound two own sound.session
  distinct := CObfuscationPool.entriesDistinct_of_step
    (mixingStep_session (verifyMutable crypto) pool call own.1) sound.distinct
  signatures := by
    obtain ⟨node, draws, action⟩ := call
    have isNode : node.fMasterNode = true := own.1
    have signatures := sound.signatures
    unfold mixingStep
    cases action with
    | dsa gate nDenom txCollateral newID =>
      simp only [processDsa]
      split
      · exact signatures
      split
      · exact signatures
      split
      · exact signatures
      split
      · exact signatures
      · exact signatures.isCompatibleWithSession sound.session.nobody node nDenom
          txCollateral newID
    | dsi compatible vin nAmount txCollateral vout =>
      exact signatures.processDsi node isNode compatible vin nAmount txCollateral vout
    | dss compatible sigs => exact signatures.processDss compatible genuine
    | checkTimeout => exact signatures.checkTimeout
    | checkForCompleteQueue => exact signatures.checkForCompleteQueue
    | reset => exact SignaturesSound.setNull node.timeMillis

/-- As long as all signatures are genuine, every input that is marked as signed verifies in the
final transaction, and a signature whose script is new is stored if its input waits for one. -/
theorem mixing_signatures_verified (two : 2 ≤ max) (timeMillis : Int) (calls : List MixingCall)
    (own : ∀ call ∈ calls, OnMasternode max call)
    (genuine : StepRun.AllSteps (mixingStep (verifyMutable crypto))
      (fun pool call => call.GenuineSigs crypto scriptOf pool) (.init timeMillis) calls)
    (sigs : List CTxIn)
    (genuine_sigs : StepRun.AllSteps (sigStep crypto) (Genuine crypto scriptOf)
      (StepRun.run (mixingStep (verifyMutable crypto)) (.init timeMillis) calls) sigs) :
    let pool := StepRun.run (sigStep crypto)
      (StepRun.run (mixingStep (verifyMutable crypto)) (.init timeMillis) calls) sigs
    (∀ s, pool.HasInput s → s.fHasSig = true →
        Verified crypto scriptOf pool.finalTransaction s.place) ∧
      ∀ newVin, ¬ pool.HasScriptSig newVin.scriptSig →
        (∃ s, pool.HasInput s ∧ s.place = newVin.place ∧ s.fHasSig = false) →
        (sigStep crypto pool newVin).Stores newVin := by
  have reached : SigningSound crypto scriptOf max
      (StepRun.run (mixingStep (verifyMutable crypto)) (.init timeMillis) calls) := by
    apply StepRun.AllSteps.invariant
      (P := fun pool call => OnMasternode max call ∧ call.GenuineSigs crypto scriptOf pool)
    · rintro pool call sound ⟨own, genuine⟩
      exact mixingStep_signingSound two own genuine sound
    · exact StepRun.AllSteps.and
        (StepRun.AllSteps.of_forall (fun call member _ => own call member) _) genuine
    · have cleared := cleared_setNull
        ⟨[], .empty, 0, .unknown, 0, 0, [], 0⟩ timeMillis
      exact ⟨cleared.sound (by omega), nofun, .of_cleared cleared⟩
  intro pool
  have behind : SignaturesSound crypto scriptOf pool ∧ pool.EntriesDistinct := by
    apply genuine_sigs.invariant
      (I := fun pool => SignaturesSound crypto scriptOf pool ∧ pool.EntriesDistinct)
    · rintro pool newVin ⟨sound, distinct⟩ genuine
      have next : pool.Shrinks (sigStep crypto pool newVin) :=
        Or.inl (pool.addScriptSig_goesOn newVin)
      exact ⟨sound.addScriptSig genuine, next.entriesDistinct distinct⟩
    · exact ⟨reached.signatures, reached.distinct⟩
  refine ⟨behind.1.verified, fun newVin new waits => ?_⟩
  exact stores_sigStep behind.2 new waits

end Runs

/-! ## Signatures on a test network -/

def sampleMixingKey : List UInt8 := 2 :: List.replicate 32 7

/-- A signature in its encoding, with the hash type of all inputs and outputs. -/
def sampleDER : List UInt8 := [0x30, 6, 2, 1, 1, 2, 1, 1, 1]

/-- The sample's key has the address 2, and signs with `sampleDER`. -/
def sampleCrypto : SigCrypto (List UInt8) where
  ripemd160 vch := if vch = sampleMixingKey then List.replicate 20 2 else []
  sha1 := id
  sha256 := id
  ss := { getHash := id, one := [1] }
  verify vchPubKey _ vchSig := vchPubKey == sampleMixingKey && vchSig == sampleDER.dropLast

def sampleScriptOf (o : COutPoint) : CScript :=
  (sampleMixingCoins.vout[o.n.toNat]?.map CTxOut.scriptPubKey).getD []

/-- Two users have brought their entries, and the final transaction is there. -/
def sampleSigning : List MixingCall :=
  sampleReady ++ [sampleEntry 1 0xffffffff (COIN + 1000), sampleEntry 2 0xffffffff (COIN + 1000)]

/-- An input of the first entry, with a script. -/
def sampleSigned (scriptSig : CScript) : CTxIn := { prevout := ⟨1, 1⟩, scriptSig }

def sampleSignature : CTxIn :=
  sampleSigned (9 :: sampleDER ++ 33 :: sampleMixingKey)

/-- `OP_NOP` for a signature. -/
def sampleForgery : CTxIn := sampleSigned [0x61]

def samplePool : CObfuscationPool :=
  StepRun.run (mixingStep (verifyMutable sampleCrypto)) (.init 0) sampleSigning

theorem samplePool_vin :
    samplePool.finalTransaction.vin = [{ prevout := ⟨1, 1⟩ }, { prevout := ⟨1, 2⟩ }] := by
  decide +kernel

theorem mixing_signatures_verified_sample :
    let pool := StepRun.run (sigStep sampleCrypto) samplePool [sampleSignature]
    (∀ s, pool.HasInput s → s.fHasSig = true →
        Verified sampleCrypto sampleScriptOf pool.finalTransaction s.place) ∧
      ∀ newVin, ¬ pool.HasScriptSig newVin.scriptSig →
        (∃ s, pool.HasInput s ∧ s.place = newVin.place ∧ s.fHasSig = false) →
        (sigStep sampleCrypto pool newVin).Stores newVin := by
  have verifies : verifyMutable sampleCrypto sampleSignature.scriptSig
      (sampleScriptOf sampleSignature.prevout) samplePool.finalTransaction 0 = true := by
    decide +kernel
  have two : (2 : Int) ≤ 2 := by decide
  refine mixing_signatures_verified two 0 sampleSigning ?_
    ⟨trivial, trivial, trivial, trivial, trivial, trivial⟩ [sampleSignature]
    ⟨Or.inr ⟨fun _ => ?_, fun n txin here place => ?_⟩, trivial⟩
  · intro call member
    simp only [sampleSigning, sampleReady, cons_append, nil_append, mem_cons,
      not_mem_nil, or_false] at member
    rcases member with rfl | rfl | rfl | rfl | rfl
    · exact ⟨rfl, rfl⟩
    · exact ⟨rfl, rfl⟩
    · exact ⟨rfl, rfl⟩
    · exact ⟨rfl, rfl⟩
    · exact ⟨rfl, rfl⟩
  · show _ ∈ samplePool.finalTransaction.vin.map CTxIn.place
    rw [samplePool_vin]
    decide
  · have here : samplePool.finalTransaction.vin[n]? = some txin := here
    rw [samplePool_vin] at here
    cases n with
    | zero => exact verifies
    | succ n =>
      cases n with
      | zero =>
        obtain rfl := Option.some.inj here
        revert place
        decide
      | succ n => cases here

/-- A forged signature is stored: its input is marked as signed, and does not verify; then the
signature of the owner, which verifies, is not stored in the entry. -/
theorem forged_signature_stored :
    (∃ s, (sigStep sampleCrypto samplePool sampleForgery).HasInput s ∧ s.fHasSig = true ∧
        ¬ Verified sampleCrypto sampleScriptOf
          (sigStep sampleCrypto samplePool sampleForgery).finalTransaction s.place) ∧
      verifyMutable sampleCrypto sampleSignature.scriptSig (sampleScriptOf sampleSignature.prevout)
        samplePool.finalTransaction 0 = true ∧
      ¬ (sigStep sampleCrypto (sigStep sampleCrypto samplePool sampleForgery)
        sampleSignature).Stores sampleSignature := by
  have marked : (sigStep sampleCrypto samplePool sampleForgery).entries.map
      CObfuScationEntry.sev =
      [[{ prevout := ⟨1, 1⟩, scriptSig := [0x61], fHasSig := true }], [{ prevout := ⟨1, 2⟩ }]] := by
    decide +kernel
  have behind : (sigStep sampleCrypto (sigStep sampleCrypto samplePool sampleForgery)
      sampleSignature).entries.map CObfuScationEntry.sev =
      [[{ prevout := ⟨1, 1⟩, scriptSig := [0x61], fHasSig := true }], [{ prevout := ⟨1, 2⟩ }]] := by
    decide +kernel
  have vin : (sigStep sampleCrypto samplePool sampleForgery).finalTransaction.vin[0]? =
      some sampleForgery := by
    decide +kernel
  have fails : verifyMutable sampleCrypto sampleForgery.scriptSig
      (sampleScriptOf sampleForgery.prevout)
      (sigStep sampleCrypto samplePool sampleForgery).finalTransaction 0 = false := by
    decide +kernel
  refine ⟨?_, by decide +kernel, ?_⟩
  · have first : [{ prevout := ⟨1, 1⟩, scriptSig := [0x61], fHasSig := true }] ∈
        (sigStep sampleCrypto samplePool sampleForgery).entries.map CObfuScationEntry.sev := by
      rw [marked]
      exact mem_cons_self
    obtain ⟨v, entry, sev⟩ := mem_map.mp first
    refine ⟨{ prevout := ⟨1, 1⟩, scriptSig := [0x61], fHasSig := true }, ⟨v, entry, ?_⟩, rfl,
      fun verified => ?_⟩
    · rw [sev]
      exact mem_cons_self
    · have verifies := verified.verifies 0 sampleForgery vin rfl
      exact absurd (verifies.symm.trans fails) nofun
  intro stores
  obtain ⟨s, ⟨v, entry, there⟩, same, -⟩ := stores.entry
  have listed := mem_map_of_mem (f := CObfuScationEntry.sev) entry
  rw [behind] at listed
  rcases mem_cons.mp listed with first | second
  · rw [first, mem_singleton] at there
    rw [there] at same
    revert same
    decide
  rw [mem_singleton.mp second, mem_singleton] at there
  rw [there] at same
  revert same
  decide

end Esbcoin
