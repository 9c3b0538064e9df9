import Esbcoin.GM

/-!
# Alerts

`CAlert::ProcessAlert` (`src/alert.cpp:169-233`) over `mapAlerts`. The clock is read once for an
alert. Notifying the user, `-alertnotify` and relaying are left out, with the versions an alert
applies to where nothing else reads them.
-/

namespace Esbcoin

open Bytes Option

/-- `CUnsignedAlert` (`alert.h:29-45`). -/
structure CUnsignedAlert where
  nVersion : Int
  nRelayUntil : Int
  nExpiration : Int
  nID : Int
  nCancel : Int
  setCancel : List Int
  nMinVer : Int
  nMaxVer : Int
  setSubVer : List (List UInt8)
  nPriority : Int
  strComment : List UInt8
  strStatusBar : List UInt8
  strReserved : List UInt8
deriving DecidableEq, Repr

/-- `std::numeric_limits<int>::max()`. -/
def maxInt : Int := 2 ^ 31 - 1

namespace CUnsignedAlert

/-- What `CUnsignedAlert::SerializationOp` writes (`alert.h:50-68`). -/
def serialize (alert : CUnsignedAlert) : List UInt8 :=
  signedBytes 4 alert.nVersion ++ signedBytes 8 alert.nRelayUntil ++
    signedBytes 8 alert.nExpiration ++ signedBytes 4 alert.nID ++ signedBytes 4 alert.nCancel ++
    sizedElements (signedBytes 4) alert.setCancel ++ signedBytes 4 alert.nMinVer ++
    signedBytes 4 alert.nMaxVer ++ sizedElements sizedBytes alert.setSubVer ++
    signedBytes 4 alert.nPriority ++ sizedBytes alert.strComment ++
    sizedBytes alert.strStatusBar ++ sizedBytes alert.strReserved

/-- What `CUnsignedAlert::SerializationOp` reads (`alert.h:50-68`). -/
def unserialize (s : List UInt8) : Option CUnsignedAlert := do
  let (nVersion, s) ← readSigned 4 s
  let (nRelayUntil, s) ← readSigned 8 s
  let (nExpiration, s) ← readSigned 8 s
  let (nID, s) ← readSigned 4 s
  let (nCancel, s) ← readSigned 4 s
  let (nSize, s) ← readCompactSize s
  let (setCancel, s) ← CUnsignedMessage.readElements (readSigned 4) nSize s
  let (nMinVer, s) ← readSigned 4 s
  let (nMaxVer, s) ← readSigned 4 s
  let (nSize, s) ← readCompactSize s
  let (setSubVer, s) ← CUnsignedMessage.readElements (readSizedBytes MAX_SIZE) nSize s
  let (nPriority, s) ← readSigned 4 s
  let (strComment, s) ← readSizedBytes 65536 s
  let (strStatusBar, s) ← readSizedBytes 256 s
  let (strReserved, _) ← readSizedBytes 256 s
  some
    { nVersion, nRelayUntil, nExpiration, nID, nCancel, setCancel, nMinVer, nMaxVer, setSubVer,
      nPriority, strComment, strStatusBar, strReserved }

/-- `CAlert::IsInEffect` (`alert.cpp:101-104`) at `GetAdjustedTime() = now`. -/
def isInEffect (now : Int) (alert : CUnsignedAlert) : Bool := now < alert.nExpiration

/-- `CAlert::Cancels` (`alert.cpp:106-111`). -/
def cancels (now : Int) (this alert : CUnsignedAlert) : Bool :=
  this.isInEffect now && (alert.nID ≤ this.nCancel || this.setCancel.contains alert.nID)

/-- The largest number is kept for the announcement of a stolen key (`alert.cpp:182-194`). -/
def idAllowed (this : CUnsignedAlert) : Bool :=
  this.nID != maxInt ||
    (this.nExpiration == maxInt && this.nCancel == maxInt - 1 && this.nMinVer == 0 &&
      this.nMaxVer == maxInt && this.setSubVer.isEmpty && this.nPriority == maxInt &&
      this.strStatusBar == chars "URGENT: Alert key compromised, upgrade required")

end CUnsignedAlert

/-- `CAlert` (`alert.h:75-79`). -/
structure CAlert extends CUnsignedAlert where
  vchMsg : List UInt8
  vchSig : List UInt8
deriving DecidableEq, Repr

/-- What processing an alert takes from outside: `Hash`, `Params().AlertKey()`, ECDSA. -/
structure AlertContext where
  hash : List UInt8 → UInt256
  alertKey : CPubKey
  verify : CPubKey → UInt256 → List UInt8 → Bool

/-- `mapAlerts` (`alert.cpp:26`). -/
abbrev MapAlerts := AssocMap UInt256 CAlert

/-- An alert as it comes, and the time. -/
structure AlertCall where
  now : Int
  vchMsg : List UInt8
  vchSig : List UInt8

/-- How `CAlert::ProcessAlert` ends. -/
inductive AlertOutcome
  | accepted
  | rejected
  | thrown
deriving DecidableEq, Repr

namespace CAlert

variable (c : AlertContext) (now : Int)

/-- `CAlert::GetHash` (`alert.cpp:96-99`). -/
def getHash (this : CAlert) : UInt256 := c.hash this.vchMsg

/-- Is the alert left in the map (`alert.cpp:199-212`)? -/
def keeps (this alert : CAlert) : Bool :=
  !(this.cancels now alert.toCUnsignedAlert || !alert.isInEffect now)

/-- What `CAlert::ProcessAlert` does under the lock (`alert.cpp:197-229`). -/
def store (mapAlerts : MapAlerts) (this : CAlert) : AlertOutcome × MapAlerts :=
  let mapAlerts := mapAlerts.retain fun _ alert => this.keeps now alert
  if mapAlerts.entries.any fun item => item.2.cancels now this.toCUnsignedAlert then
    (.rejected, mapAlerts)
  else (.accepted, mapAlerts.insertNew (this.getHash c) this)

end CAlert

/-- `CAlert::CheckSignature` (`alert.cpp:145-155`) in front of reading the fields. -/
def AlertCall.verified (c : AlertContext) (call : AlertCall) : Bool :=
  c.verify c.alertKey (c.hash call.vchMsg) call.vchSig

/-- `CAlert::ProcessAlert` (`alert.cpp:169-233`). -/
def processAlert (c : AlertContext) (mapAlerts : MapAlerts) (call : AlertCall) :
    AlertOutcome × MapAlerts :=
  if !call.verified c then (.rejected, mapAlerts)
  else
    match CUnsignedAlert.unserialize call.vchMsg with
    | none => (.thrown, mapAlerts)
    | some fields =>
      if fields.isInEffect call.now && fields.idAllowed then
        CAlert.store c call.now mapAlerts { fields with vchMsg := call.vchMsg, vchSig := call.vchSig }
      else (.rejected, mapAlerts)

def alertStep (c : AlertContext) (mapAlerts : MapAlerts) (call : AlertCall) : MapAlerts :=
  (processAlert c mapAlerts call).2

/-- An alert that passes the checks in front of the lock names the largest number as cancelled, or
comes when 31 bits of time are over. -/
def AlertCall.Overrides (c : AlertContext) (call : AlertCall) : Prop :=
  call.verified c = true ∧ ∃ fields, CUnsignedAlert.unserialize call.vchMsg = some fields ∧
    (fields.isInEffect call.now && fields.idAllowed) = true ∧
    (maxInt ≤ fields.nCancel ∨ maxInt ∈ fields.setCancel ∨ maxInt ≤ call.now)

/-! ## The steps -/

section Steps

variable {c : AlertContext} {mapAlerts : MapAlerts} {call : AlertCall}

/-- An alert is refused in front of the lock, or goes on to it. -/
theorem processAlert_cases (c : AlertContext) (mapAlerts : MapAlerts) (call : AlertCall) :
    ((processAlert c mapAlerts call).1 ≠ .accepted ∧
      (processAlert c mapAlerts call).2 = mapAlerts) ∨
    ∃ fields, call.verified c = true ∧ CUnsignedAlert.unserialize call.vchMsg = some fields ∧
      (fields.isInEffect call.now && fields.idAllowed) = true ∧
      processAlert c mapAlerts call = CAlert.store c call.now mapAlerts
        { fields with vchMsg := call.vchMsg, vchSig := call.vchSig } := by
  unfold processAlert
  by_cases verified : call.verified c = true
  · simp only [verified, Bool.not_true, Bool.false_eq_true, if_false]
    cases read : CUnsignedAlert.unserialize call.vchMsg with
    | none => exact Or.inl ⟨nofun, rfl⟩
    | some fields =>
      by_cases allowed : (fields.isInEffect call.now && fields.idAllowed) = true
      · exact Or.inr ⟨fields, trivial, rfl, allowed, if_pos allowed⟩
      · simp only [if_neg allowed]
        exact Or.inl ⟨nofun, trivial⟩
  · rw [Bool.eq_false_iff.mpr verified]
    exact Or.inl ⟨(nofun : AlertOutcome.rejected ≠ .accepted), rfl⟩

variable {this alert : CAlert} {now : Int} {hash : UInt256}

theorem lookup_left : (mapAlerts.retain fun _ alert => this.keeps now alert).lookup hash =
    some alert ↔ mapAlerts.lookup hash = some alert ∧ this.keeps now alert = true := by
  rw [AssocMap.lookup_retain, filter_eq_some_iff]

/-- What the map finds behind an alert is from before, or the alert itself. -/
theorem lookup_store (found : (CAlert.store c now mapAlerts this).2.lookup hash = some alert) :
    mapAlerts.lookup hash = some alert ∨
      ((CAlert.store c now mapAlerts this).1 = .accepted ∧ alert = this) := by
  unfold CAlert.store at found ⊢
  simp only at found ⊢
  split at found
  · exact Or.inl (lookup_left.mp found).1
  rename_i fresh
  rw [if_neg fresh]
  rw [AssocMap.lookup_insertNew] at found
  split at found
  · rename_i own
    rw [Option.some.injEq] at found
    cases there : (mapAlerts.retain fun _ alert => this.keeps now alert).lookup
        (this.getHash c) with
    | none =>
      rw [there, getD_none] at found
      exact Or.inr ⟨rfl, found.symm⟩
    | some old =>
      rw [there, getD_some] at found
      rw [own, ← found]
      exact Or.inl (lookup_left.mp there).1
  · exact Or.inl (lookup_left.mp found).1

/-- A stored alert that the new one keeps stays, and is not written over. -/
theorem lookup_store_of_keeps (stored : mapAlerts.lookup hash = some alert)
    (keeps : this.keeps now alert = true) :
    (CAlert.store c now mapAlerts this).2.lookup hash = some alert := by
  have kept := lookup_left.mpr ⟨stored, keeps⟩
  unfold CAlert.store
  simp only
  split
  · exact kept
  rw [AssocMap.lookup_insertNew]
  split
  · rename_i own
    rw [own] at kept
    rw [kept, getD_some]
  · exact kept

/-- A stored alert that the new one keeps and that cancels it: the new one is refused. -/
theorem store_rejected (stored : mapAlerts.lookup hash = some alert)
    (keeps : this.keeps now alert = true)
    (cancels : alert.cancels now this.toCUnsignedAlert = true) :
    (CAlert.store c now mapAlerts this).1 = .rejected := by
  have kept := lookup_left.mpr ⟨stored, keeps⟩
  have inside : ⟨hash, alert⟩ ∈ (mapAlerts.retain fun _ alert => this.keeps now alert).entries :=
    AList.mem_lookup_iff.mp kept
  unfold CAlert.store
  rw [if_pos (List.any_eq_true.mpr ⟨⟨hash, alert⟩, inside, cancels⟩)]

end Steps

/-! ## The announcement of a stolen key -/

namespace CUnsignedAlert

variable {fields alert : CUnsignedAlert} {now : Int}

/-- No number is larger than the largest. -/
theorem nID_le_of_unserialize {s : List UInt8} (read : unserialize s = some fields) :
    fields.nID ≤ maxInt := by
  obtain ⟨⟨nVersion, s1⟩, -, read⟩ := bind_eq_some_iff.mp read
  obtain ⟨⟨nRelayUntil, s2⟩, -, read⟩ := bind_eq_some_iff.mp read
  obtain ⟨⟨nExpiration, s3⟩, -, read⟩ := bind_eq_some_iff.mp read
  obtain ⟨⟨nID, s4⟩, number, read⟩ := bind_eq_some_iff.mp read
  obtain ⟨⟨nCancel, s5⟩, -, read⟩ := bind_eq_some_iff.mp read
  obtain ⟨⟨nSize, s6⟩, -, read⟩ := bind_eq_some_iff.mp read
  obtain ⟨⟨setCancel, s7⟩, -, read⟩ := bind_eq_some_iff.mp read
  obtain ⟨⟨nMinVer, s8⟩, -, read⟩ := bind_eq_some_iff.mp read
  obtain ⟨⟨nMaxVer, s9⟩, -, read⟩ := bind_eq_some_iff.mp read
  obtain ⟨⟨nSize', s10⟩, -, read⟩ := bind_eq_some_iff.mp read
  obtain ⟨⟨setSubVer, s11⟩, -, read⟩ := bind_eq_some_iff.mp read
  obtain ⟨⟨nPriority, s12⟩, -, read⟩ := bind_eq_some_iff.mp read
  obtain ⟨⟨strComment, s13⟩, -, read⟩ := bind_eq_some_iff.mp read
  obtain ⟨⟨strStatusBar, s14⟩, -, read⟩ := bind_eq_some_iff.mp read
  obtain ⟨⟨strReserved, s15⟩, -, read⟩ := bind_eq_some_iff.mp read
  obtain rfl := Option.some.inj read
  obtain ⟨⟨-, high⟩, -⟩ := (reads_signed 4 _ _ _).mp number
  show nID ≤ maxInt
  have half : (256 : Int) ^ 4 = 2 * (maxInt + 1) := by decide
  omega

/-- The announcement lasts to the end of 31 bits, and cancels all other numbers. -/
theorem idAllowed_max (allowed : alert.idAllowed = true) (largest : alert.nID = maxInt) :
    alert.nExpiration = maxInt ∧ alert.nCancel = maxInt - 1 := by
  unfold idAllowed at allowed
  simp only [largest, bne_self_eq_false, Bool.false_or, Bool.and_eq_true, beq_iff_eq] at allowed
  exact ⟨allowed.1.1.1.1.1.1, allowed.1.1.1.1.1.2⟩

end CUnsignedAlert

/-- Every stored alert has passed the test of its number. -/
def NumbersAllowed (mapAlerts : MapAlerts) : Prop :=
  ∀ hash alert, mapAlerts.lookup hash = some alert → alert.idAllowed = true

section Runs

variable {c : AlertContext} {mapAlerts : MapAlerts} {call : AlertCall}

theorem numbersAllowed_step (allowed : NumbersAllowed mapAlerts) (call : AlertCall) :
    NumbersAllowed (alertStep c mapAlerts call) := by
  intro hash alert found
  unfold alertStep at found
  rcases processAlert_cases c mapAlerts call with ⟨-, same⟩ | ⟨fields, -, -, passed, run⟩
  · rw [same] at found
    exact allowed hash alert found
  rw [run] at found
  rcases lookup_store found with before | ⟨-, new⟩
  · exact allowed hash alert before
  · rw [new]
    exact (Bool.and_eq_true_iff.mp passed).2

/-- The announcement is kept by every alert that does not override it. -/
theorem keeps_of_not_overrides {alert : CAlert} {fields : CUnsignedAlert}
    (plain : ¬ call.Overrides c) (verified : call.verified c = true)
    (read : CUnsignedAlert.unserialize call.vchMsg = some fields)
    (passed : (fields.isInEffect call.now && fields.idAllowed) = true)
    (allowed : alert.idAllowed = true) (largest : alert.nID = maxInt) :
    alert.isInEffect call.now = true ∧
      CAlert.keeps call.now { fields with vchMsg := call.vchMsg, vchSig := call.vchSig } alert =
        true := by
  have harmless : ¬ (maxInt ≤ fields.nCancel ∨ maxInt ∈ fields.setCancel ∨ maxInt ≤ call.now) :=
    fun overrides => plain ⟨verified, fields, read, passed, overrides⟩
  rw [not_or, not_or] at harmless
  obtain ⟨below, absent, early⟩ := harmless
  have inEffect : alert.isInEffect call.now = true := by
    rw [CUnsignedAlert.isInEffect, (CUnsignedAlert.idAllowed_max allowed largest).1]
    exact decide_eq_true (by omega)
  refine ⟨inEffect, ?_⟩
  have not_cancelled : fields.cancels call.now alert.toCUnsignedAlert = false := by
    rw [CUnsignedAlert.cancels, largest, decide_eq_false below, Bool.false_or,
      Bool.and_eq_false_iff]
    exact Or.inr (by simpa using absent)
  rw [CAlert.keeps]
  simp only [not_cancelled, inEffect, Bool.not_true, Bool.or_false, Bool.not_false]

theorem lookup_step_of_not_overrides {hash : UInt256} {alert : CAlert}
    (stored : mapAlerts.lookup hash = some alert) (allowed : alert.idAllowed = true)
    (largest : alert.nID = maxInt) (plain : ¬ call.Overrides c) :
    (alertStep c mapAlerts call).lookup hash = some alert := by
  unfold alertStep
  rcases processAlert_cases c mapAlerts call with ⟨-, same⟩ | ⟨fields, verified, read, passed, run⟩
  · rw [same]
    exact stored
  · rw [run]
    exact lookup_store_of_keeps stored
      (keeps_of_not_overrides plain verified read passed allowed largest).2

/-- Behind the announcement no other number is accepted, and nothing new is stored. -/
theorem refused_of_not_overrides {hash : UInt256} {alert : CAlert}
    (stored : mapAlerts.lookup hash = some alert) (allowed : alert.idAllowed = true)
    (largest : alert.nID = maxInt) (plain : ¬ call.Overrides c)
    (other : ∀ fields, CUnsignedAlert.unserialize call.vchMsg = some fields → fields.nID ≠ maxInt) :
    (processAlert c mapAlerts call).1 ≠ .accepted ∧
      ∀ hash' alert', (processAlert c mapAlerts call).2.lookup hash' = some alert' →
        mapAlerts.lookup hash' = some alert' := by
  rcases processAlert_cases c mapAlerts call with
    ⟨refused, same⟩ | ⟨fields, verified, read, passed, run⟩
  · rw [same]
    exact ⟨refused, fun _ _ found => found⟩
  obtain ⟨inEffect, keeps⟩ :=
    keeps_of_not_overrides plain verified read passed allowed largest
  have below : fields.nID ≤ maxInt - 1 := by
    have most := CUnsignedAlert.nID_le_of_unserialize read
    have differs := other fields read
    omega
  have cancels : alert.cancels call.now fields = true := by
    rw [CUnsignedAlert.cancels, inEffect, (CUnsignedAlert.idAllowed_max allowed largest).2,
      decide_eq_true below]
    rfl
  have rejected := store_rejected (c := c) stored keeps cancels
  rw [run]
  refine ⟨?_, fun hash' alert' found => ?_⟩
  · rw [rejected]
    exact nofun
  rcases lookup_store found with before | ⟨accepted, -⟩
  · exact before
  · rw [rejected] at accepted
    cases accepted

/-- Once it is stored, the announcement of a stolen key stays, and no alert with another number is
accepted, as long as no alert overrides it. -/
theorem key_compromised_alert_stays (calls : List AlertCall) (hash : UInt256) (alert : CAlert)
    (stored : (StepRun.run (alertStep c) ∅ calls).lookup hash = some alert)
    (largest : alert.nID = maxInt) (rest : List AlertCall)
    (plain : StepRun.AllSteps (alertStep c) (fun _ call => ¬ call.Overrides c)
      (StepRun.run (alertStep c) ∅ calls) rest) :
    let mapAlerts := StepRun.run (alertStep c) ∅ (calls ++ rest)
    mapAlerts.lookup hash = some alert ∧
      ∀ call : AlertCall, ¬ call.Overrides c →
        (∀ fields, CUnsignedAlert.unserialize call.vchMsg = some fields → fields.nID ≠ maxInt) →
        (processAlert c mapAlerts call).1 ≠ .accepted ∧
          ∀ hash' alert', (processAlert c mapAlerts call).2.lookup hash' = some alert' →
            mapAlerts.lookup hash' = some alert' := by
  intro mapAlerts
  have numbers : NumbersAllowed (StepRun.run (alertStep c) ∅ calls) := by
    apply StepRun.run_invariant
    · exact fun _ call allowed => numbersAllowed_step allowed call
    · intro hash alert found
      cases found
  have allowed := numbers hash alert stored
  have still : mapAlerts.lookup hash = some alert := by
    show (StepRun.run (alertStep c) ∅ (calls ++ rest)).lookup hash = some alert
    rw [StepRun.run_append]
    exact plain.invariant (I := fun mapAlerts : MapAlerts => mapAlerts.lookup hash = some alert)
      (fun _ _ stored plain => lookup_step_of_not_overrides stored allowed largest plain) stored
  exact ⟨still, fun call plain other => refused_of_not_overrides still allowed largest plain other⟩

end Runs

/-! ## Alerts of the samples -/

def sampleAlertContext : AlertContext where
  hash bytes := BitVec.ofNat 256 (ofLittleEndian bytes)
  alertKey := .invalid
  verify _ _ _ := true

def sampleAnnouncement : CUnsignedAlert where
  nVersion := 1
  nRelayUntil := maxInt
  nExpiration := maxInt
  nID := maxInt
  nCancel := maxInt - 1
  setCancel := []
  nMinVer := 0
  nMaxVer := maxInt
  setSubVer := []
  nPriority := maxInt
  strComment := []
  strStatusBar := chars "URGENT: Alert key compromised, upgrade required"
  strReserved := []

/-- Another alert, which cancels the numbers up to `nCancel`. -/
def sampleAlert (nCancel : Int) : CUnsignedAlert :=
  { sampleAnnouncement with nID := 5, nCancel := nCancel, strStatusBar := chars "all is well" }

def sampleAlertCall (alert : CUnsignedAlert) : AlertCall := ⟨100, alert.serialize, []⟩

theorem key_compromised_alert_stays_sample :
    let mapAlerts := StepRun.run (alertStep sampleAlertContext) ∅
      ([sampleAlertCall sampleAnnouncement] ++ [sampleAlertCall (sampleAlert 7)])
    mapAlerts.lookup (sampleAlertContext.hash sampleAnnouncement.serialize) =
        some { sampleAnnouncement with vchMsg := sampleAnnouncement.serialize, vchSig := [] } ∧
      ∀ call : AlertCall, ¬ call.Overrides sampleAlertContext →
        (∀ fields, CUnsignedAlert.unserialize call.vchMsg = some fields → fields.nID ≠ maxInt) →
        (processAlert sampleAlertContext mapAlerts call).1 ≠ .accepted ∧
          ∀ hash' alert',
            (processAlert sampleAlertContext mapAlerts call).2.lookup hash' = some alert' →
              mapAlerts.lookup hash' = some alert' := by
  refine key_compromised_alert_stays [sampleAlertCall sampleAnnouncement]
    (sampleAlertContext.hash sampleAnnouncement.serialize)
    { sampleAnnouncement with vchMsg := sampleAnnouncement.serialize, vchSig := [] }
    (by decide +kernel) rfl [sampleAlertCall (sampleAlert 7)] ⟨?_, trivial⟩
  rintro ⟨-, fields, read, -, overrides⟩
  have known : CUnsignedAlert.unserialize (sampleAlert 7).serialize = some (sampleAlert 7) := by
    decide +kernel
  obtain rfl := Option.some.inj (known.symm.trans read)
  revert overrides
  decide +kernel

/-- An alert that cancels up to the largest number: the announcement is gone, and the alert is
accepted. -/
theorem announcement_overridden :
    (processAlert sampleAlertContext ∅ (sampleAlertCall sampleAnnouncement)).1 = .accepted ∧
      (processAlert sampleAlertContext
        (alertStep sampleAlertContext ∅ (sampleAlertCall sampleAnnouncement))
        (sampleAlertCall (sampleAlert maxInt))).1 = .accepted ∧
      (processAlert sampleAlertContext
        (alertStep sampleAlertContext ∅ (sampleAlertCall sampleAnnouncement))
        (sampleAlertCall (sampleAlert maxInt))).2.lookup
          (sampleAlertContext.hash sampleAnnouncement.serialize) = none := by
  decide +kernel

end Esbcoin
