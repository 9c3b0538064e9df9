import Esbcoin.GM.AllOrNothing

/-!
# Messages that come again

`CGM::ProcessMessage` (`src/gm.cpp:227-311`) drops the stored messages that a new one cancels, but
does not look whether a stored message cancels the new one, as `CAlert::ProcessAlert` does
(`src/alert.cpp:214-221`).
-/

namespace Esbcoin

open Bytes CUnsignedMessage

/-- A message names the number of another as cancelled. -/
def CUnsignedMessage.Covers (this message : CUnsignedMessage) : Prop :=
  message.nID ≤ this.nCancel ∨ message.nID ∈ this.setCancel

theorem CUnsignedMessage.cancels_iff {now : Int} {this message : CUnsignedMessage} :
    this.cancels now message = true ↔ this.isInEffect now = true ∧ this.Covers message := by
  rw [cancels, Bool.and_eq_true, Bool.or_eq_true, decide_eq_true_eq, List.contains_iff_mem]
  rfl

/-- A message as it comes, and the time. -/
structure GMCall where
  now : Int
  this : CGM

namespace CGM

/-- A run of the messages handles one. -/
def gmStep (c : GMContext) (s : GMState) (call : GMCall) : GMState :=
  (call.this.processMessage c call.now s).2

/-- A message passes all checks. -/
def Accepted (c : GMContext) (now : Int) (s : GMState) (this message : CGM) : Prop :=
  ∃ sLevel, Admitted c now s this message sLevel ∧ ¬ RefusedLate c now s message sLevel

/-- A message that passes all checks is cancelled by one that is stored and in effect, or cancels
itself. -/
def Replays (c : GMContext) (s : GMState) (call : GMCall) : Prop :=
  ∃ message, Accepted c call.now s call.this message ∧
    (message.Covers message.toCUnsignedMessage ∨
      ∃ hash stored, s.mapGMs.lookup hash = some stored ∧
        stored.cancels call.now message.toCUnsignedMessage = true)

/-- No stored message names the number of a stored one as cancelled. -/
def NoneCovered (s : GMState) : Prop :=
  ∀ hash hash' this message, s.mapGMs.lookup hash = some this →
    s.mapGMs.lookup hash' = some message → ¬ this.Covers message.toCUnsignedMessage

variable {c : GMContext} {s : GMState} {call : GMCall}

/-- What a message does: nothing is stored and no command is run, or it is accepted and kept beside
what it leaves of the map. -/
theorem gmStep_cases (c : GMContext) (s : GMState) (call : GMCall) :
    ((∀ hash stored, (gmStep c s call).mapGMs.lookup hash = some stored →
        s.mapGMs.lookup hash = some stored) ∧
      (gmStep c s call).mapGMSigners = s.mapGMSigners ∧
      ∀ message, ¬ Accepted c call.now s call.this message) ∨
    ∃ message, Accepted c call.now s call.this message ∧
      (gmStep c s call).mapGMs = (left call.now s message).insert (message.getHash c) message := by
  unfold gmStep
  rcases processMessage_cases c call.now s call.this with
    ⟨message, sLevel, admitted, run⟩ | ⟨none, -, same⟩
  · by_cases late : RefusedLate c call.now s message sLevel
    · rw [run, store_refused late]
      refine Or.inl ⟨fun hash stored found => ?_, rfl, ?_⟩
      · rw [left, AssocMap.lookup_retain, Option.filter_eq_some_iff] at found
        exact found.1
      rintro other ⟨level, admitted', passed⟩
      obtain rfl := Option.some.inj (admitted'.fields.symm.trans admitted.fields)
      obtain rfl := Option.some.inj (admitted'.signature.symm.trans admitted.signature)
      exact passed late
    · refine Or.inr ⟨message, ⟨sLevel, admitted, late⟩, ?_⟩
      rw [run, store_passed late]
      split
      · rfl
      · rfl
  · rw [same]
    refine Or.inl ⟨fun _ _ found => found, rfl, ?_⟩
    rintro message ⟨sLevel, admitted, -⟩
    exact none message sLevel admitted

/-- A message that is no replay keeps the stored ones from cancelling each other. -/
theorem noneCovered_step (none : NoneCovered s) (fresh : ¬ Replays c s call) :
    NoneCovered (gmStep c s call) := by
  rcases gmStep_cases c s call with ⟨before, -, -⟩ | ⟨message, accepted, stored⟩
  · intro hash hash' this other found found'
    exact none hash hash' this other (before hash this found) (before hash' other found')
  have itself : ¬ message.Covers message.toCUnsignedMessage := fun covers =>
    fresh ⟨message, accepted, Or.inl covers⟩
  have inEffect : message.isInEffect call.now = true := by
    obtain ⟨sLevel, admitted, -⟩ := accepted
    exact (Bool.and_eq_true_iff.mp admitted.allowed).1
  have kept : ∀ {hash this}, (gmStep c s call).mapGMs.lookup hash = some this →
      this = message ∨ (s.mapGMs.lookup hash = some this ∧ message.keeps call.now this = true) := by
    intro hash this found
    rw [stored, AssocMap.lookup_insert_eq] at found
    split at found
    · exact Or.inl (Option.some.inj found).symm
    · rw [left, AssocMap.lookup_retain, Option.filter_eq_some_iff] at found
      exact Or.inr found
  intro hash hash' this other found found' covers
  rcases kept found with rfl | ⟨old, keeps⟩
  · rcases kept found' with rfl | ⟨old', keeps'⟩
    · exact itself covers
    -- the new message has dropped what it cancels
    have cancels := cancels_iff.mpr ⟨inEffect, covers⟩
    rw [CGM.keeps, cancels] at keeps'
    cases keeps'
  rcases kept found' with rfl | ⟨old', -⟩
  · -- what is left of the map is in effect
    have lasts : this.isInEffect call.now = true := by
      rw [CGM.keeps, Bool.not_eq_true', Bool.or_eq_false_iff] at keeps
      simpa using keeps.2
    exact fresh ⟨other, accepted, Or.inr ⟨hash, this, old,
      cancels_iff.mpr ⟨lasts, covers⟩⟩⟩
  · exact none hash hash' this other old old' covers

/-- As long as no message comes again behind one that cancels it, no stored message cancels a stored
one, and one that is cancelled is not stored. -/
theorem no_cancelled_message_stored (c : GMContext) (mapGMSigners : GMSigners)
    (calls : List GMCall)
    (fresh : StepRun.AllSteps (gmStep c) (fun s call => ¬ Replays c s call) ⟨∅, mapGMSigners⟩ calls) :
    let s := StepRun.run (gmStep c) ⟨∅, mapGMSigners⟩ calls
    (∀ hash hash' this message now, s.mapGMs.lookup hash = some this →
        s.mapGMs.lookup hash' = some message →
        this.cancels now message.toCUnsignedMessage = false) ∧
      ∀ (call : GMCall) message, ¬ Replays c s call → call.this.unserialized = some message →
        (∃ hash stored, s.mapGMs.lookup hash = some stored ∧
          stored.cancels call.now message.toCUnsignedMessage = true) →
        (gmStep c s call).mapGMSigners = s.mapGMSigners ∧
          ∀ hash stored, (gmStep c s call).mapGMs.lookup hash = some stored →
            s.mapGMs.lookup hash = some stored := by
  intro s
  have none : NoneCovered s := by
    apply fresh.invariant
    · exact fun _ _ none fresh => noneCovered_step none fresh
    · intro hash hash' this message found
      cases found
  refine ⟨?_, ?_⟩
  · intro hash hash' this message now found found'
    rw [← Bool.not_eq_true, cancels_iff]
    rintro ⟨-, covers⟩
    exact none hash hash' this message found found' covers
  rintro call message fresh fields ⟨hash, stored, found, cancels⟩
  rcases gmStep_cases c s call with ⟨before, signers, -⟩ | ⟨other, accepted, -⟩
  · exact ⟨signers, before⟩
  · obtain ⟨sLevel, admitted, passed⟩ := accepted
    obtain rfl := Option.some.inj (admitted.fields.symm.trans fields)
    exact absurd ⟨other, ⟨sLevel, admitted, passed⟩, Or.inr ⟨hash, stored, found, cancels⟩⟩ fresh

/-! ## A signer who comes back -/

def sampleGrant : CGM :=
  signed { null with
    nID := 1
    nExpiration := 5000
    strStatus := chars "STS"
    strData := chars "7n1ETfGoj5HXYU588ZjeYt9EU4Fxz8Uzmmx8G7ikNeH4ojmBJTbLYcMLc" }

/-- The game master removes signer 7, and cancels the messages up to the grant. -/
def sampleRemoval : CGM :=
  signed { null with
    nID := 2
    nCancel := 1
    nExpiration := 5000
    strStatus := chars "RTS"
    strData := chars "BNuyR" }

theorem no_cancelled_message_stored_sample :
    let s := StepRun.run (gmStep sampleContext) ⟨∅, ∅⟩
      [⟨1000, sampleGrant⟩, ⟨1000, sampleRemoval⟩]
    (∀ hash hash' this message now, s.mapGMs.lookup hash = some this →
        s.mapGMs.lookup hash' = some message →
        this.cancels now message.toCUnsignedMessage = false) ∧
      ∀ (call : GMCall) message, ¬ Replays sampleContext s call →
        call.this.unserialized = some message →
        (∃ hash stored, s.mapGMs.lookup hash = some stored ∧
          stored.cancels call.now message.toCUnsignedMessage = true) →
        (gmStep sampleContext s call).mapGMSigners = s.mapGMSigners ∧
          ∀ hash stored, (gmStep sampleContext s call).mapGMs.lookup hash = some stored →
            s.mapGMs.lookup hash = some stored := by
  have grant : sampleGrant.unserialized = some sampleGrant := by decide +kernel
  have removal : sampleRemoval.unserialized = some sampleRemoval := by decide +kernel
  have only : (gmStep sampleContext ⟨∅, ∅⟩ ⟨1000, sampleGrant⟩).mapGMs.entries =
      [⟨sampleGrant.getHash sampleContext, sampleGrant⟩] := by
    decide +kernel
  refine no_cancelled_message_stored sampleContext ∅
    [⟨1000, sampleGrant⟩, ⟨1000, sampleRemoval⟩] ⟨?_, ?_, trivial⟩
  · rintro ⟨message, ⟨sLevel, admitted, -⟩, itself | ⟨hash, stored, found, -⟩⟩
    · obtain rfl := Option.some.inj (admitted.fields.symm.trans grant)
      revert itself
      unfold CUnsignedMessage.Covers
      decide +kernel
    · cases found
  rintro ⟨message, ⟨sLevel, admitted, -⟩, itself | ⟨hash, stored, found, cancels⟩⟩
  · obtain rfl := Option.some.inj (admitted.fields.symm.trans removal)
    revert itself
    unfold CUnsignedMessage.Covers
    decide +kernel
  obtain rfl := Option.some.inj (admitted.fields.symm.trans removal)
  have inside := AList.mem_lookup_iff.mp found
  rw [only, List.mem_singleton] at inside
  obtain rfl : stored = sampleGrant := eq_of_heq (Sigma.mk.inj inside).2
  revert cancels
  decide +kernel

/-- The grant comes again behind the removal that cancels it: it is stored beside the removal, and
signer 7 is back. -/
theorem removed_signer_restored :
    sampleRemoval.cancels 1000 sampleGrant.toCUnsignedMessage = true ∧
      (StepRun.run (gmStep sampleContext) ⟨∅, ∅⟩
        [⟨1000, sampleGrant⟩, ⟨1000, sampleRemoval⟩]).mapGMSigners.lookup 7 = none ∧
      (StepRun.run (gmStep sampleContext) ⟨∅, ∅⟩
        [⟨1000, sampleGrant⟩, ⟨1000, sampleRemoval⟩, ⟨1000, sampleGrant⟩]).mapGMs.entries =
          [⟨sampleGrant.getHash sampleContext, sampleGrant⟩,
            ⟨sampleRemoval.getHash sampleContext, sampleRemoval⟩] ∧
      ((StepRun.run (gmStep sampleContext) ⟨∅, ∅⟩
        [⟨1000, sampleGrant⟩, ⟨1000, sampleRemoval⟩, ⟨1000, sampleGrant⟩]).mapGMSigners.lookup
          7).isSome = true := by
  decide +kernel

end CGM

end Esbcoin
