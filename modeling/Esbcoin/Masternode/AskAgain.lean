import Esbcoin.Masternode.Announcement

/-!
# Asking for a masternode again

`AskForMN` notes when a missing masternode may be asked for again, and `CheckAndRemove` forgets the
notes that have run out (`src/masternodeman.cpp:242-338`).
-/

namespace Esbcoin

/-- `CMasternodeMan` with the notes of `AskForMN` (`masternodeman.h:71-72`). -/
structure AskingMan extends CMasternodeMan where
  mWeAskedForMasternodeListEntry : AssocMap COutPoint Int := ∅

namespace AskingMan

/-- `askAgain` (`masternodeman.cpp:254`): the sum of the clock and the comparison is the condition
of the choice. -/
def askAgain (chainHeight time : Int) : Int :=
  if time + (if activeProtocol chainHeight ≥ CONSENSUS_FORK_PROTO then 1 else 0) ≠ 0 then
    MASTERNODE_MIN_MNP_SECONDS2
  else MASTERNODE_MIN_MNP_SECONDS

/-- `CMasternodeMan::AskForMN` (`masternodeman.cpp:242-256`), and whether it sends 'dseg'. -/
def askForMN (env : MasternodeEnv) (vin : CTxIn) (s : AskingMan) : AskingMan × Bool :=
  if ((s.mWeAskedForMasternodeListEntry.lookup vin.prevout).map fun t =>
      decide (env.time < t)).getD false then (s, false)
  else
    ({ s with
      mWeAskedForMasternodeListEntry := s.mWeAskedForMasternodeListEntry.insert vin.prevout
        (askAgain env.chainActive.height env.time) }, true)

/-- The collaterals of the masternodes that a pass takes out. -/
def removed (env : MasternodeEnv) (forceExpiredRemoval : Bool) (s : AskingMan) :
    List COutPoint :=
  ((s.toCMasternodeMan.checkAll env).vMasternodes.filter
    (CMasternodeMan.isOut env forceExpiredRemoval)).map ListedMasternode.outpoint

/-- `CMasternodeMan::CheckAndRemove` with the notes (`masternodeman.cpp:297-305`, `:333-341`). -/
def checkAndRemove (env : MasternodeEnv) (forceExpiredRemoval : Bool) (s : AskingMan) :
    AskingMan where
  toCMasternodeMan := s.toCMasternodeMan.checkAndRemove env forceExpiredRemoval
  mWeAskedForMasternodeListEntry :=
    AssocMap.retain
      (s.mWeAskedForMasternodeListEntry.eraseAll (s.removed env forceExpiredRemoval))
      fun _ t => !decide (t < env.time)

end AskingMan

/-! ## Runs -/

/-- What is seen of a run. -/
inductive AskEvent where
  /-- A 'dseg' for an outpoint. -/
  | request (peer : Nat) (outpoint : COutPoint) (time : Int)
  /-- The masternode of an outpoint leaves the list. -/
  | removed (outpoint : COutPoint)
  /-- A pass of `CheckAndRemove`. -/
  | pass (time : Int)

/-- A manager with what was seen so far, the latest first. -/
structure AskRun extends AskingMan where
  events : List AskEvent := []

/-- What is called, with what the call reads. -/
inductive AskAction where
  | ask (peer : Nat) (env : MasternodeEnv) (vin : CTxIn)
  | checkAndRemove (env : MasternodeEnv) (forceExpiredRemoval : Bool)

/-- A step of the run, with what it sent. -/
def askAgainStep (run : AskRun) : AskAction → AskRun
  | .ask peer env vin =>
    match run.toAskingMan.askForMN env vin with
    | (man, true) => ⟨man, .request peer vin.prevout env.time :: run.events⟩
    | (man, false) => ⟨man, run.events⟩
  | .checkAndRemove env forceExpiredRemoval =>
    ⟨run.toAskingMan.checkAndRemove env forceExpiredRemoval,
      .pass env.time :: (run.toAskingMan.removed env forceExpiredRemoval).map .removed ++
        run.events⟩

/-- The times of its requests since it was last removed. -/
def requestsSince (outpoint : COutPoint) : List AskEvent → List Int
  | [] => []
  | .request _ asked time :: events =>
    if asked = outpoint then time :: requestsSince outpoint events
    else requestsSince outpoint events
  | .removed gone :: events => if gone = outpoint then [] else requestsSince outpoint events
  | .pass _ :: events => requestsSince outpoint events

/-- A request comes within the interval of one before it that no removal divides from it. -/
def AskedRecently (outpoint : COutPoint) (time : Int) (events : List AskEvent) : Prop :=
  ∃ before ∈ requestsSince outpoint events,
    time - before < MASTERNODE_MIN_MNP_SECONDS2 ∧ before - time < MASTERNODE_MIN_MNP_SECONDS2

/-- No two requests for one outpoint come within the interval of each other, unless the masternode
was removed in between. -/
def Spaced : List AskEvent → Prop
  | [] => True
  | .request _ outpoint time :: events => ¬ AskedRecently outpoint time events ∧ Spaced events
  | _ :: events => Spaced events

/-- How long a request holds the next one back by the clock: a constant. -/
def holdsUntil (time : Int) : Int :=
  if time = -1 then MASTERNODE_MIN_MNP_SECONDS else MASTERNODE_MIN_MNP_SECONDS2

/-- Until when requests for an outpoint are held back, from the clocks of the events alone. -/
def heldUntil (start : Option Int) (outpoint : COutPoint) : List AskEvent → Option Int
  | [] => start
  | .request _ asked time :: events =>
    if asked = outpoint then some (holdsUntil time) else heldUntil start outpoint events
  | .removed gone :: events => if gone = outpoint then none else heldUntil start outpoint events
  | .pass time :: events => (heldUntil start outpoint events).filter fun t => !decide (t < time)

/-- A call for an outpoint that was asked for within the interval is held back by the constant that
was noted. -/
def HeldBack (start : AskingMan) (run : AskRun) : AskAction → Prop
  | .ask _ env vin =>
    AskedRecently vin.prevout env.time run.events →
      ∃ t ∈ heldUntil (start.mWeAskedForMasternodeListEntry.lookup vin.prevout) vin.prevout
        run.events, env.time < t
  | .checkAndRemove _ _ => True

/-! ## The notes are the constants -/

theorem askAgain_eq (chainHeight time : Int) :
    AskingMan.askAgain chainHeight time = holdsUntil time := by
  unfold AskingMan.askAgain holdsUntil
  rw [if_pos (consensusForkProto_le_activeProtocol chainHeight)]
  by_cases minus : time = -1
  · rw [if_pos minus, if_neg (by omega)]
  · rw [if_neg minus, if_pos (by omega)]

/-- The notes say what the events say. -/
def Noted (start : AskingMan) (run : AskRun) : Prop :=
  ∀ outpoint, run.mWeAskedForMasternodeListEntry.lookup outpoint =
    heldUntil (start.mWeAskedForMasternodeListEntry.lookup outpoint) outpoint run.events

theorem heldUntil_removed (start : Option Int) (outpoint : COutPoint) (gone : List COutPoint)
    (events : List AskEvent) :
    heldUntil start outpoint (gone.map .removed ++ events) =
      if outpoint ∈ gone then none else heldUntil start outpoint events := by
  induction gone with
  | nil => simp
  | cons first gone ih =>
    rw [List.map_cons, List.cons_append, heldUntil, ih]
    by_cases equal : first = outpoint
    · simp [equal]
    · simp [equal, Ne.symm equal]

/-- A call is held back by a note above the clock; otherwise it sends and leaves the constant. -/
theorem askAgainStep_cases (run : AskRun) (peer : Nat) (env : MasternodeEnv) (vin : CTxIn) :
    (∃ t ∈ run.mWeAskedForMasternodeListEntry.lookup vin.prevout, env.time < t) ∧
        askAgainStep run (.ask peer env vin) = run ∨
      (¬ ∃ t ∈ run.mWeAskedForMasternodeListEntry.lookup vin.prevout, env.time < t) ∧
        askAgainStep run (.ask peer env vin) =
          { run with
            mWeAskedForMasternodeListEntry := run.mWeAskedForMasternodeListEntry.insert vin.prevout
              (holdsUntil env.time)
            events := .request peer vin.prevout env.time :: run.events } := by
  simp only [askAgainStep, AskingMan.askForMN, askAgain_eq]
  cases run.mWeAskedForMasternodeListEntry.lookup vin.prevout with
  | none => simp
  | some t =>
    by_cases early : env.time < t
    · simp [early]
    · simp [early]

theorem noted_step {start : AskingMan} {run : AskRun} (noted : Noted start run)
    (action : AskAction) : Noted start (askAgainStep run action) := by
  intro outpoint
  cases action with
  | ask peer env vin =>
    rcases askAgainStep_cases run peer env vin with ⟨-, held⟩ | ⟨-, sent⟩
    · rw [held]
      exact noted outpoint
    rw [sent]
    rw [AssocMap.lookup_insert_eq, heldUntil]
    by_cases own : outpoint = vin.prevout
    · rw [if_pos own, if_pos own.symm]
    · rw [if_neg own, if_neg (Ne.symm own)]
      exact noted outpoint
  | checkAndRemove env forceExpiredRemoval =>
    show AList.lookup outpoint (AssocMap.retain _ _) = heldUntil _ outpoint
      (.pass env.time :: ((run.toAskingMan.removed env forceExpiredRemoval).map .removed ++
        run.events))
    rw [AssocMap.lookup_retain, AssocMap.lookup_eraseAll, heldUntil, heldUntil_removed,
      noted outpoint]

theorem spaced_removed (gone : List COutPoint) (events : List AskEvent) :
    Spaced (gone.map .removed ++ events) ↔ Spaced events := by
  induction gone with
  | nil => exact Iff.rfl
  | cons first gone ih => exact ih

theorem spaced_step_iff {start : AskingMan} {run : AskRun} (action : AskAction)
    (noted : Noted start run) (spaced : Spaced run.events) :
    Spaced (askAgainStep run action).events ↔ HeldBack start run action := by
  cases action with
  | ask peer env vin =>
    have note := noted vin.prevout
    rcases askAgainStep_cases run peer env vin with ⟨early, held⟩ | ⟨late, sent⟩
    · rw [held]
      rw [note] at early
      exact iff_of_true spaced (fun _ => early)
    rw [sent]
    rw [note] at late
    constructor
    · intro apart recent
      exact absurd recent apart.1
    · intro back
      exact ⟨fun recent => late (back recent), spaced⟩
  | checkAndRemove env forceExpiredRemoval =>
    refine iff_of_true ?_ trivial
    exact (spaced_removed (run.toAskingMan.removed env forceExpiredRemoval) run.events).mpr spaced

end Esbcoin
