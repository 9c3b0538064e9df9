import Esbcoin.GM

/-!
# Refused messages that have already acted

`CGM::ProcessMessage` drops what a message cancels, and what has expired, before its last two
checks, and it edits the signers while it reads the data of a command, so a data error comes when
the message is stored and the entries in front of it are done.
-/

namespace Esbcoin

open Bytes AssocMap

/-! ## The data of a command -/

namespace SignerEntry

/-- The ranges of an entry that can be read. -/
structure Fits (entry : SignerEntry) : Prop where
  nID : InTwosComplement 4 entry.nID
  nAR : InTwosComplement 4 entry.nAR
  vchKey : entry.vchKey.length ≤ MAX_SIZE

theorem reads_entry : Reads Fits serialize read := by
  intro bytes entry rest
  unfold serialize
  constructor
  · intro read
    obtain ⟨⟨nID, s⟩, first, read⟩ := Option.bind_eq_some_iff.mp read
    obtain ⟨⟨nAR, s'⟩, second, read⟩ := Option.bind_eq_some_iff.mp read
    obtain ⟨⟨vchKey, s''⟩, third, same⟩ := Option.bind_eq_some_iff.mp read
    obtain ⟨rangeID, rfl⟩ := (reads_signed 4 _ _ _).mp first
    obtain ⟨rangeAR, rfl⟩ := (reads_signed 4 _ _ _).mp second
    obtain ⟨⟨short, -⟩, rfl⟩ := (reads_sizedBytes MAX_SIZE _ _ _).mp third
    obtain ⟨rfl, rfl⟩ := same
    exact ⟨⟨rangeID, rangeAR, short⟩, by simp only [List.append_assoc]⟩
  rintro ⟨fits, rfl⟩
  have first := (reads_signed 4 _ entry.nID
    (signedBytes 4 entry.nAR ++ (sizedBytes entry.vchKey ++ rest))).mpr ⟨fits.nID, rfl⟩
  have second := (reads_signed 4 _ entry.nAR (sizedBytes entry.vchKey ++ rest)).mpr
    ⟨fits.nAR, rfl⟩
  have third := (reads_sizedBytes MAX_SIZE _ entry.vchKey rest).mpr
    ⟨⟨fits.vchKey, fits.vchKey⟩, rfl⟩
  simp only [SignerEntry.read, List.append_assoc, first, second, third, Option.bind_eq_bind,
    Option.bind_some]

theorem serialize_ne_nil (entry : SignerEntry) : entry.serialize ≠ [] := by
  apply List.ne_nil_of_length_pos
  simp only [serialize, List.length_append, length_signedBytes]
  omega

end SignerEntry

theorem signedBytes_ne_nil (nID : Int) : signedBytes 4 nID ≠ [] := by
  apply List.ne_nil_of_length_pos
  rw [length_signedBytes]
  decide

namespace CGM

variable (c : GMContext) (now : Int)

/-- Behind the entries the signers are those before with the last entry of each number that has a
valid key. -/
def Sets (entries : List SignerEntry) (signers signers' : GMSigners) : Prop :=
  ∀ nID, signers'.lookup nID =
    ((entries.reverse.find? fun entry =>
        decide (entry.nID = nID) && c.isFullyValid (CPubKey.set entry.vchKey)).map
      fun entry => (CPubKey.set entry.vchKey, entry.nAR)).or (signers.lookup nID)

/-- Behind the entries the signers are those before without the numbers. -/
def Erases (nIDs : List Int) (signers signers' : GMSigners) : Prop :=
  ∀ nID, signers'.lookup nID = if nID ∈ nIDs then none else signers.lookup nID

theorem sets_foldl (entries : List SignerEntry) (signers : GMSigners) :
    Sets c entries signers (entries.foldl (setSigner c) signers) := by
  induction entries generalizing signers with
  | nil => exact fun nID => rfl
  | cons entry entries ih =>
    intro nID
    rw [List.foldl_cons, ih, List.reverse_cons, List.find?_append]
    cases entries.reverse.find? fun entry =>
        decide (entry.nID = nID) && c.isFullyValid (CPubKey.set entry.vchKey) with
    | some last => rfl
    | none =>
      by_cases valid : c.isFullyValid (CPubKey.set entry.vchKey) = true
      · by_cases equal : entry.nID = nID
        · simp [setSigner, valid, equal]
        · simp [setSigner, valid, equal, Ne.symm equal]
      · simp [setSigner, valid]

theorem erases_foldl (nIDs : List Int) (signers : GMSigners) :
    Erases nIDs signers (nIDs.foldl eraseSigner signers) :=
  fun nID => lookup_eraseAll signers nIDs nID

/-! ## What is promised -/

/-- Both maps find what they found before. -/
structure Untouched (s s' : GMState) : Prop where
  mapGMs : ∀ hash, s'.mapGMs.lookup hash = s.mapGMs.lookup hash
  mapGMSigners : ∀ nID, s'.mapGMSigners.lookup nID = s.mapGMSigners.lookup nID

/-- The data of a signer command, read to its end, is done. -/
inductive CommandDone (this : CGM) (signers signers' : GMSigners) : Prop
  | sts {bytes : List UInt8} {entries : List SignerEntry}
      (status : this.strStatus = chars "STS") (data : decodeBase58 this.strData = some bytes)
      (whole : Whole SignerEntry.Fits SignerEntry.serialize bytes entries)
      (done : Sets c entries signers signers')
  | rts {bytes : List UInt8} {nIDs : List Int}
      (status : this.strStatus = chars "RTS") (data : decodeBase58 this.strData = some bytes)
      (whole : Whole (InTwosComplement 4) (signedBytes 4) bytes nIDs)
      (done : Erases nIDs signers signers')

/-- A message that is not accepted changes nothing, and a signer command that is accepted is done
as a whole or not at all. -/
structure AllOrNothing (s : GMState) (this : CGM) : Prop where
  refused : (this.processMessage c now s).1 ≠ .accepted →
    Untouched s (this.processMessage c now s).2
  accepted : (this.processMessage c now s).1 = .accepted →
    (∀ nID, (this.processMessage c now s).2.mapGMSigners.lookup nID = s.mapGMSigners.lookup nID) ∨
    ∃ message, this.unserialized = some message ∧ message.nSignerID = 0 ∧
      message.CommandDone c s.mapGMSigners (this.processMessage c now s).2.mapGMSigners

/-! ## When it is kept -/

/-- The message passes the checks in front of the lock. -/
structure Admitted (s : GMState) (this message : CGM) (sLevel : Int) : Prop where
  fields : this.unserialized = some message
  signature : message.checkSignature c s.mapGMSigners = some sLevel
  allowed : (message.isInEffect now && message.idAllowed) = true

/-- The message fails a check under the lock. -/
def RefusedLate (s : GMState) (message : CGM) (sLevel : Int) : Prop :=
  (sLevel = 1 ∧ now + 60 < message.nExpiration) ∨
    ∃ stored, s.mapGMs.lookup (message.getHash c) = some stored ∧ message.keeps now stored = true

/-- No stored message has expired or is cancelled. -/
def KeepsAll (s : GMState) (message : CGM) : Prop :=
  ∀ hash stored, s.mapGMs.lookup hash = some stored → message.keeps now stored = true

/-- The message is stored, and nothing else would be dropped. -/
structure StoredAlready (s : GMState) (message : CGM) : Prop where
  this : s.mapGMs.lookup (message.getHash c) = some message
  others : ∀ hash stored, hash ≠ message.getHash c → s.mapGMs.lookup hash = some stored →
    message.keeps now stored = true

/-- Nothing is done for a message that is refused in the end. -/
structure NoEarlyEffect (s : GMState) (this : CGM) : Prop where
  late : ∀ message sLevel, Admitted c now s this message sLevel →
    RefusedLate c now s message sLevel → KeepsAll now s message
  sts : ∀ message sLevel bytes entries, Admitted c now s this message sLevel →
    ¬ RefusedLate c now s message sLevel → message.nSignerID = 0 →
    message.strStatus = chars "STS" → decodeBase58 message.strData = some bytes →
    BreaksOff SignerEntry.Fits SignerEntry.serialize bytes entries →
    StoredAlready c now s message ∧ Sets c entries s.mapGMSigners s.mapGMSigners
  rts : ∀ message sLevel bytes nIDs, Admitted c now s this message sLevel →
    ¬ RefusedLate c now s message sLevel → message.nSignerID = 0 →
    message.strStatus = chars "RTS" → decodeBase58 message.strData = some bytes →
    BreaksOff (InTwosComplement 4) (signedBytes 4) bytes nIDs →
    StoredAlready c now s message ∧ Erases nIDs s.mapGMSigners s.mapGMSigners

/-! ## The steps -/

variable {c now} {s : GMState} {this message : CGM} {sLevel : Int} {signers : GMSigners}

/-- How a command ends. -/
inductive CommandRun (c : GMContext) (this : CGM) (signers : GMSigners) : Bool × GMSigners → Prop
  | ignored : CommandRun c this signers (true, signers)
  | whole {signers' : GMSigners} (done : this.CommandDone c signers signers') :
      CommandRun c this signers (true, signers')
  | sts {bytes : List UInt8} {entries : List SignerEntry} {signers' : GMSigners}
      (status : this.strStatus = chars "STS") (data : decodeBase58 this.strData = some bytes)
      (breaks : BreaksOff SignerEntry.Fits SignerEntry.serialize bytes entries)
      (done : Sets c entries signers signers') : CommandRun c this signers (false, signers')
  | rts {bytes : List UInt8} {nIDs : List Int} {signers' : GMSigners}
      (status : this.strStatus = chars "RTS") (data : decodeBase58 this.strData = some bytes)
      (breaks : BreaksOff (InTwosComplement 4) (signedBytes 4) bytes nIDs)
      (done : Erases nIDs signers signers') : CommandRun c this signers (false, signers')

theorem runCommand_run (this : CGM) (signers : GMSigners) :
    CommandRun c this signers (this.runCommand c signers) := by
  unfold runCommand
  by_cases sts : this.strStatus = chars "STS"
  · rw [if_pos sts]
    cases data : decodeBase58 this.strData with
    | none => exact .ignored
    | some bytes =>
      have nonempty := fun entry (_ : SignerEntry.Fits entry) => entry.serialize_ne_nil
      rcases whole_or_breaksOff nonempty bytes with ⟨entries, whole⟩ | ⟨entries, breaks⟩
      · simp only [whileReads_whole (setSigner c) SignerEntry.reads_entry nonempty whole]
        exact .whole (.sts sts data whole (sets_foldl c entries signers))
      · simp only [whileReads_breaksOff (setSigner c) SignerEntry.reads_entry nonempty breaks]
        exact .sts sts data breaks (sets_foldl c entries signers)
  rw [if_neg sts]
  by_cases rts : this.strStatus = chars "RTS"
  · rw [if_pos rts]
    cases data : decodeBase58 this.strData with
    | none => exact .ignored
    | some bytes =>
      have nonempty := fun nID (_ : InTwosComplement 4 nID) => signedBytes_ne_nil nID
      rcases whole_or_breaksOff nonempty bytes with ⟨nIDs, whole⟩ | ⟨nIDs, breaks⟩
      · simp only [whileReads_whole eraseSigner (reads_signed 4) nonempty whole]
        exact .whole (.rts rts data whole (erases_foldl nIDs signers))
      · simp only [whileReads_breaksOff eraseSigner (reads_signed 4) nonempty breaks]
        exact .rts rts data breaks (erases_foldl nIDs signers)
  · rw [if_neg rts]
    exact .ignored

/-- A command whose data breaks off throws behind the entries in front. -/
theorem runCommand_sts (c : GMContext) (signers : GMSigners) {bytes : List UInt8}
    {entries : List SignerEntry}
    (status : this.strStatus = chars "STS") (data : decodeBase58 this.strData = some bytes)
    (breaks : BreaksOff SignerEntry.Fits SignerEntry.serialize bytes entries) :
    this.runCommand c signers = (false, entries.foldl (setSigner c) signers) := by
  rw [runCommand, if_pos status, data]
  exact whileReads_breaksOff _ SignerEntry.reads_entry (fun entry _ => entry.serialize_ne_nil)
    breaks signers

theorem runCommand_rts (c : GMContext) (signers : GMSigners) {bytes : List UInt8} {nIDs : List Int}
    (status : this.strStatus = chars "RTS") (data : decodeBase58 this.strData = some bytes)
    (breaks : BreaksOff (InTwosComplement 4) (signedBytes 4) bytes nIDs) :
    this.runCommand c signers = (false, nIDs.foldl eraseSigner signers) := by
  have other : ¬ this.strStatus = chars "STS" := by
    rw [status]
    decide
  rw [runCommand, if_neg other, if_pos status, data]
  exact whileReads_breaksOff _ (reads_signed 4) (fun nID _ => signedBytes_ne_nil nID) breaks signers

/-- What a message leaves of the stored ones. -/
def left (now : Int) (s : GMState) (message : CGM) : AssocMap UInt256 CGM :=
  s.mapGMs.retain fun _ stored => message.keeps now stored

theorem left_same_iff :
    (∀ hash, (left now s message).lookup hash = s.mapGMs.lookup hash) ↔ KeepsAll now s message := by
  constructor
  · intro same hash stored found
    have kept := same hash
    rw [left, lookup_retain, found, Option.filter_eq_some_iff] at kept
    exact kept.2
  intro keeps hash
  rw [left, lookup_retain]
  cases found : s.mapGMs.lookup hash with
  | none => rfl
  | some stored => exact Option.filter_eq_some_iff.mpr ⟨rfl, keeps hash stored found⟩

theorem stored_same_iff :
    (∀ hash, ((left now s message).insert (message.getHash c) message).lookup hash =
      s.mapGMs.lookup hash) ↔ StoredAlready c now s message := by
  constructor
  · intro same
    refine ⟨?_, ?_⟩
    · rw [← same, AList.lookup_insert]
    intro hash stored other found
    have kept := same hash
    rw [AList.lookup_insert_ne other, left, lookup_retain, found,
      Option.filter_eq_some_iff] at kept
    exact kept.2
  intro already hash
  rw [lookup_insert_eq]
  by_cases own : hash = message.getHash c
  · rw [if_pos own, own, already.this]
  rw [if_neg own, left, lookup_retain]
  cases found : s.mapGMs.lookup hash with
  | none => rfl
  | some stored => exact Option.filter_eq_some_iff.mpr ⟨rfl, already.others hash stored own found⟩

theorem store_refused (late : RefusedLate c now s message sLevel) :
    message.store c now sLevel s = (.rejected, { s with mapGMs := left now s message }) := by
  unfold store
  rcases late with ⟨level, long⟩ | ⟨stored, found, keeps⟩
  · exact if_pos (by simp [level, long])
  have inside : (left now s message).contains (message.getHash c) = true := by
    rw [contains_iff, left, lookup_retain]
    exact ⟨stored, Option.filter_eq_some_iff.mpr ⟨found, keeps⟩⟩
  split
  · rfl
  · exact if_pos inside

theorem store_passed (passed : ¬ RefusedLate c now s message sLevel) :
    message.store c now sLevel s =
      if message.nSignerID = 0 then
        (if (message.runCommand c s.mapGMSigners).1 then .accepted else .thrown,
          { mapGMs := (left now s message).insert (message.getHash c) message
            mapGMSigners := (message.runCommand c s.mapGMSigners).2 })
      else
        (.accepted, { s with mapGMs := (left now s message).insert (message.getHash c) message }) := by
  have short : ¬ (sLevel == 1 && decide (now + 60 < message.nExpiration)) = true := by
    intro long
    rw [Bool.and_eq_true, beq_iff_eq, decide_eq_true_eq] at long
    exact passed (Or.inl long)
  have absent : ¬ (left now s message).contains (message.getHash c) = true := by
    intro inside
    rw [contains_iff, left, lookup_retain] at inside
    obtain ⟨stored, found⟩ := inside
    exact passed (Or.inr ⟨stored, Option.filter_eq_some_iff.mp found⟩)
  unfold store
  rw [if_neg short]
  exact if_neg absent

/-- A message goes through the lock, or it changes nothing. -/
theorem processMessage_cases (c : GMContext) (now : Int) (s : GMState) (this : CGM) :
    (∃ message sLevel, Admitted c now s this message sLevel ∧
      this.processMessage c now s = message.store c now sLevel s) ∨
    ((∀ message sLevel, ¬ Admitted c now s this message sLevel) ∧
      (this.processMessage c now s).1 ≠ .accepted ∧ (this.processMessage c now s).2 = s) := by
  unfold processMessage
  cases fields : this.unserialized with
  | none =>
    refine Or.inr ⟨?_, nofun, rfl⟩
    intro message sLevel admitted
    rw [admitted.fields] at fields
    cases fields
  | some message =>
    dsimp only
    cases signature : message.checkSignature c s.mapGMSigners with
    | none =>
      refine Or.inr ⟨?_, nofun, rfl⟩
      intro other sLevel admitted
      obtain rfl : message = other := Option.some.inj (fields.symm.trans admitted.fields)
      rw [admitted.signature] at signature
      cases signature
    | some sLevel =>
      dsimp only
      by_cases allowed : (message.isInEffect now && message.idAllowed) = true
      · rw [if_pos allowed]
        exact Or.inl ⟨message, sLevel, ⟨fields, signature, allowed⟩, rfl⟩
      rw [if_neg allowed]
      refine Or.inr ⟨?_, nofun, rfl⟩
      intro other level admitted
      obtain rfl : message = other := Option.some.inj (fields.symm.trans admitted.fields)
      exact allowed admitted.allowed

/-! ## The result -/

theorem allOrNothing_of_refused (late : RefusedLate c now s message sLevel)
    (run : this.processMessage c now s = message.store c now sLevel s) :
    AllOrNothing c now s this ↔ KeepsAll now s message := by
  rw [store_refused late] at run
  rw [← left_same_iff]
  constructor
  · intro promised
    have untouched := promised.refused (by rw [run]; nofun)
    rw [run] at untouched
    exact untouched.mapGMs
  intro same
  refine ⟨fun _ => ?_, fun accepted => ?_⟩
  · rw [run]
    exact ⟨same, fun _ => rfl⟩
  · rw [run] at accepted
    cases accepted

/-- Behind the checks under the lock only a command that breaks off is refused. -/
theorem allOrNothing_of_passed (admitted : Admitted c now s this message sLevel)
    (passed : ¬ RefusedLate c now s message sLevel)
    (run : this.processMessage c now s = message.store c now sLevel s) :
    AllOrNothing c now s this ↔
      (message.nSignerID = 0 → (message.runCommand c s.mapGMSigners).1 = false →
        StoredAlready c now s message ∧
          ∀ nID, (message.runCommand c s.mapGMSigners).2.lookup nID =
            s.mapGMSigners.lookup nID) := by
  rw [store_passed passed] at run
  by_cases master : message.nSignerID = 0
  · rw [if_pos master] at run
    cases ending : (message.runCommand c s.mapGMSigners).1 with
    | false =>
      rw [ending] at run
      constructor
      · intro promised _ _
        have untouched := promised.refused (by rw [run]; nofun)
        rw [run] at untouched
        exact ⟨stored_same_iff.mp untouched.mapGMs, untouched.mapGMSigners⟩
      intro harmless
      obtain ⟨already, same⟩ := harmless master rfl
      refine ⟨fun _ => ?_, fun accepted => ?_⟩
      · rw [run]
        exact ⟨stored_same_iff.mpr already, same⟩
      · rw [run] at accepted
        cases accepted
    | true =>
      rw [ending] at run
      refine ⟨nofun, fun _ => ⟨fun refused => ?_, fun _ => ?_⟩⟩
      · rw [run] at refused
        exact absurd rfl refused
      rw [run]
      have ends := runCommand_run (c := c) message s.mapGMSigners
      generalize message.runCommand c s.mapGMSigners = result at ends ending
      cases ends with
      | ignored => exact Or.inl fun _ => rfl
      | whole done => exact Or.inr ⟨message, admitted.fields, master, done⟩
      | sts => cases ending
      | rts => cases ending
  · rw [if_neg master] at run
    refine ⟨fun _ zero => absurd zero master, fun _ => ⟨fun refused => ?_, fun _ => ?_⟩⟩
    · rw [run] at refused
      exact absurd rfl refused
    · rw [run]
      exact Or.inl fun _ => rfl

theorem untouched_iff (c : GMContext) (now : Int) (s : GMState) (this : CGM) :
    AllOrNothing c now s this ↔ NoEarlyEffect c now s this := by
  rcases processMessage_cases c now s this with ⟨message, sLevel, admitted, run⟩ | ⟨none, rest⟩
  · have only : ∀ {other level}, Admitted c now s this other level →
        other = message ∧ level = sLevel := by
      intro other level admitted'
      obtain rfl := Option.some.inj (admitted'.fields.symm.trans admitted.fields)
      exact ⟨rfl, Option.some.inj (admitted'.signature.symm.trans admitted.signature)⟩
    by_cases late : RefusedLate c now s message sLevel
    · rw [allOrNothing_of_refused late run]
      constructor
      · intro keeps
        refine ⟨?_, ?_, ?_⟩
        · rintro other level admitted' -
          rw [(only admitted').1]
          exact keeps
        · rintro other level bytes entries admitted' passed
          obtain ⟨rfl, rfl⟩ := only admitted'
          exact absurd late passed
        · rintro other level bytes nIDs admitted' passed
          obtain ⟨rfl, rfl⟩ := only admitted'
          exact absurd late passed
      · intro quiet
        exact quiet.late message sLevel admitted late
    · rw [allOrNothing_of_passed admitted late run]
      constructor
      · intro harmless
        refine ⟨?_, ?_, ?_⟩
        · intro other level admitted' late'
          obtain ⟨rfl, rfl⟩ := only admitted'
          exact absurd late' late
        · intro other level bytes entries admitted' _ master status data breaks
          obtain ⟨rfl, rfl⟩ := only admitted'
          have broken := runCommand_sts c s.mapGMSigners status data breaks
          obtain ⟨already, same⟩ := harmless master (by rw [broken])
          rw [broken] at same
          exact ⟨already, fun nID => (same nID).symm.trans (sets_foldl c entries _ nID)⟩
        · intro other level bytes nIDs admitted' _ master status data breaks
          obtain ⟨rfl, rfl⟩ := only admitted'
          have broken := runCommand_rts c s.mapGMSigners status data breaks
          obtain ⟨already, same⟩ := harmless master (by rw [broken])
          rw [broken] at same
          exact ⟨already, fun nID => (same nID).symm.trans (erases_foldl nIDs _ nID)⟩
      · intro quiet master broken
        have ends := runCommand_run (c := c) message s.mapGMSigners
        generalize message.runCommand c s.mapGMSigners = result at ends broken ⊢
        cases ends with
        | ignored => cases broken
        | whole => cases broken
        | sts status data breaks done =>
          obtain ⟨already, same⟩ :=
            quiet.sts message sLevel _ _ admitted late master status data breaks
          exact ⟨already, fun nID => (done nID).trans (same nID).symm⟩
        | rts status data breaks done =>
          obtain ⟨already, same⟩ :=
            quiet.rts message sLevel _ _ admitted late master status data breaks
          exact ⟨already, fun nID => (done nID).trans (same nID).symm⟩
  · obtain ⟨refused, same⟩ := rest
    constructor
    · intro _
      exact ⟨fun _ _ admitted => absurd admitted (none _ _),
        fun _ _ _ _ admitted => absurd admitted (none _ _),
        fun _ _ _ _ admitted => absurd admitted (none _ _)⟩
    intro _
    refine ⟨fun _ => ?_, fun accepted => absurd accepted refused⟩
    rw [same]
    exact ⟨fun _ => rfl, fun _ => rfl⟩

/-! ## Two refusals that act -/

def sampleContext : GMContext where
  hash bytes := BitVec.ofNat 256 (ofLittleEndian bytes)
  gmKey := .invalid
  verify _ _ _ := true
  isFullyValid key := key.bytes != []

/-- A signed message with these fields. -/
def signed (message : CUnsignedMessage) : CGM :=
  { message with vchMsg := message.serialize, vchSig := [] }

/-- A message that stays in effect. -/
def notice : CGM := signed { CUnsignedMessage.null with nID := 3, nExpiration := 5000 }

/-- The notice is stored, and signer 7 has level 1. -/
def sampleState : GMState where
  mapGMs := AList.singleton (notice.getHash sampleContext) notice
  mapGMSigners := AList.singleton 7 (.invalid, 1)

/-- The message of signer 7 is too long in effect; it would cancel the notice. -/
def longCancel : CGM :=
  signed { CUnsignedMessage.null with nSignerID := 7, nID := 5, nCancel := 4, nExpiration := 5000 }

def brokenRemoval : CGM :=
  signed { CUnsignedMessage.null with
    nID := 6
    nExpiration := 5000
    strStatus := chars "RTS"
    strData := chars "4VBDYSmo" }

theorem refused_messages_act :
    ¬ AllOrNothing sampleContext 1000 sampleState longCancel ∧
      ¬ AllOrNothing sampleContext 1000 sampleState brokenRemoval := by
  constructor
  · intro promised
    have untouched := (promised.refused (by decide +kernel)).mapGMs (notice.getHash sampleContext)
    exact absurd untouched (by decide +kernel)
  · intro promised
    have untouched := (promised.refused (by decide +kernel)).mapGMSigners 7
    exact absurd untouched (by decide +kernel)

end CGM

end Esbcoin
