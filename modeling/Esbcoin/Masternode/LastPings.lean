import Esbcoin.Masternode.Addresses

/-!
# The last pings of the list

A ping gets into the list by the message 'mnp', with a first broadcast, with a broadcast that
updates a masternode, or stays while the key is changed (`src/masternode.cpp:98-148`, `:598-693`,
`:763-851`). Only the first way checks it against the masternode that it is stored in.
-/

namespace Esbcoin

open KeyedList StepRun ListedMasternode List

/-! ## What should hold of a ping -/

namespace CMasternodeBroadcast

variable (net : MasternodeNet)

/-- The last ping is empty, or names the input and is signed with the key. -/
def OwnPing (mn : CMasternodeBroadcast) : Prop :=
  mn.lastPing.isDefault = true ∨
    (mn.lastPing.vin = mn.vin ∧
      net.verifyMessage mn.pubKeyMasternode.bytes mn.lastPing.vchSig mn.lastPing.strMessage = true)

instance (mn : CMasternodeBroadcast) : Decidable (mn.OwnPing net) :=
  inferInstanceAs (Decidable (_ ∨ _))

variable {net}

theorem OwnPing.of_same {mn mn' : CMasternodeBroadcast} (own : mn.OwnPing net)
    (vin : mn'.vin = mn.vin) (key : mn'.pubKeyMasternode = mn.pubKeyMasternode)
    (ping : mn'.lastPing = mn.lastPing) : mn'.OwnPing net := by
  unfold OwnPing
  rw [vin, key, ping]
  exact own

end CMasternodeBroadcast

/-- The last ping is empty, is at most one hour ahead, or was there before. -/
def StoredInTime (env : MasternodeEnv) (before : List ListedMasternode) (mn : ListedMasternode) :
    Prop :=
  mn.lastPing.isDefault = true ∨ mn.lastPing.sigTime ≤ env.adjustedTime + 60 * 60 ∨
    ∃ old ∈ before, old.outpoint = mn.outpoint ∧ old.lastPing = mn.lastPing

/-- The last ping is the masternode's own and came in time. -/
structure PingFine (net : MasternodeNet) (env : MasternodeEnv) (before : List ListedMasternode)
    (mn : ListedMasternode) : Prop where
  own : mn.OwnPing net
  inTime : StoredInTime env before mn

section Fine

variable {net : MasternodeNet} {env env' : MasternodeEnv} {before : List ListedMasternode}
  {mn mn' : ListedMasternode}

theorem PingFine.of_same (fine : PingFine net env before mn) (vin : mn'.vin = mn.vin)
    (key : mn'.pubKeyMasternode = mn.pubKeyMasternode) (ping : mn'.lastPing = mn.lastPing) :
    PingFine net env before mn' where
  own := fine.own.of_same vin key ping
  inTime := by
    unfold StoredInTime ListedMasternode.outpoint
    rw [ping, vin]
    exact fine.inTime

theorem PingFine.check (fine : PingFine net env before mn) (env' : MasternodeEnv)
    (forceCheck : Bool) : PingFine net env before (mn.check env' forceCheck) := by
  unfold ListedMasternode.check
  split
  · exact fine
  · split
    · exact fine
    · exact fine.of_same rfl rfl rfl

theorem pingFine_of_default (empty : mn.lastPing.isDefault = true) : PingFine net env before mn :=
  ⟨Or.inl empty, Or.inl empty⟩

theorem pingFine_of_mem (own : mn.OwnPing net) (member : mn ∈ before) :
    PingFine net env before mn :=
  ⟨own, Or.inr (Or.inr ⟨mn, member, rfl, rfl⟩)⟩

end Fine

/-! ## When a ping is stored -/

namespace CMasternodePing

variable (net : MasternodeNet) (env : MasternodeEnv)

/-- `CheckAndUpdate` stores the ping in the masternode it finds (`masternode.cpp:765-820`). -/
def stores (fRequireEnabled : Bool) (ping : CMasternodePing) (pmn : ListedMasternode) : Bool :=
  ping.isTimely env && ping.passesFor net env fRequireEnabled pmn

variable {net env} {s : CMasternodeMan} {ping : CMasternodePing}

/-- A ping is stored nowhere, or in the masternode that is found. -/
theorem checkAndUpdate_stores (fRequireEnabled : Bool) :
    (ping.checkAndUpdate net env s fRequireEnabled = (s, false) ∧
        ∀ pmn, s.find ping.vin = some pmn → ping.stores net env fRequireEnabled pmn = false) ∨
      ∃ pmn, s.find ping.vin = some pmn ∧ ping.stores net env fRequireEnabled pmn = true ∧
        (ping.checkAndUpdate net env s fRequireEnabled).1.vMasternodes =
          KeyedList.change ListedMasternode.outpoint ping.vin.prevout (refresh env ping)
            s.vMasternodes ∧
        (ping.checkAndUpdate net env s fRequireEnabled).2 = (refresh env ping pmn).isEnabled := by
  unfold checkAndUpdate stores
  cases ping.isTimely env with
  | false => exact Or.inl ⟨rfl, fun _ _ => rfl⟩
  | true =>
    cases found : s.find ping.vin with
    | none => exact Or.inl ⟨rfl, fun pmn absent => by cases absent⟩
    | some pmn =>
      cases passes : ping.passesFor net env fRequireEnabled pmn with
      | false =>
        refine Or.inl ⟨by simp [passes], ?_⟩
        rintro _ ⟨⟩
        rw [passes]
        rfl
      | true =>
        refine Or.inr ⟨pmn, rfl, by rw [passes]; rfl, ?_⟩
        have list := @vMasternodes_update net env s ping pmn
        have keeps : ∀ mn, (refresh env ping mn).outpoint = mn.outpoint :=
          fun mn => check_outpoint
        have after : (ping.update net env s pmn).find ping.vin = some (refresh env ping pmn) := by
          unfold CMasternodeMan.find at found ⊢
          rw [list, find_change keeps, if_pos rfl, found]
          rfl
        simp only [passes, Bool.not_true, Bool.false_eq_true, if_false, after]
        exact ⟨list, rfl⟩

/-- A ping that is stored is timely and signed with the key. -/
theorem fine_of_stores {before : List ListedMasternode} {fRequireEnabled : Bool}
    {pmn mn : ListedMasternode} (stored : ping.stores net env fRequireEnabled pmn = true)
    (names : ping.vin = pmn.vin) (vin : mn.vin = pmn.vin)
    (key : mn.pubKeyMasternode = pmn.pubKeyMasternode) (last : mn.lastPing = ping) :
    PingFine net env before mn := by
  unfold stores isTimely passesFor at stored
  simp only [Bool.and_eq_true, Bool.not_eq_eq_eq_not, Bool.not_true, decide_eq_false_iff_not,
    gt_iff_lt, Int.not_lt] at stored
  obtain ⟨⟨early, -⟩, ⟨-, signed⟩, -⟩ := stored
  refine ⟨Or.inr ⟨?_, ?_⟩, Or.inr (Or.inl ?_)⟩
  · rw [last, names, vin]
  · rw [last, key]
    exact signed
  · rw [last]
    exact early

theorem fine_refresh {before : List ListedMasternode} {fRequireEnabled : Bool}
    {pmn : ListedMasternode} (stored : ping.stores net env fRequireEnabled pmn = true)
    (names : ping.vin = pmn.vin) : PingFine net env before (refresh env ping pmn) := by
  have placed : PingFine net env before { pmn with lastPing := ping } :=
    fine_of_stores stored names rfl rfl rfl
  exact placed.check env true

end CMasternodePing

/-! ## When the pings stay the masternodes' own -/

section Conditions

variable (net : MasternodeNet) (env : MasternodeEnv) (s : CMasternodeMan)

/-- An update of the masternode `pmn` brings an empty ping, or one that is its own where it is
stored; and the key changes only if there is no old ping or the new one is stored. -/
def UpdateFits (mnb : CMasternodeBroadcast) (pmn : ListedMasternode) : Prop :=
  let ping := mnb.lastPing
  let target := (s.change mnb.vin (takeOver mnb)).find ping.vin
  ping.isDefault = true ∨
    ((∀ mn ∈ target, ping.stores net env false mn = true → ping.vin = mn.vin ∧
        (mn.outpoint = mnb.vin.prevout ∨ (ping.refresh env mn).isEnabled = false)) ∧
      ((∃ mn ∈ target, ping.stores net env false mn = true ∧ mn.outpoint = mnb.vin.prevout) ∨
        pmn.lastPing.isDefault = true ∨ pmn.pubKeyMasternode = mnb.pubKeyMasternode))

/-- The broadcast gets as far as adding a masternode. -/
def Adds (mnb : CMasternodeBroadcast) : Prop :=
  (mnb.checkAndUpdate net env s).2 = true ∧
    env.isVinAssociatedWithPubkey net mnb.vin mnb.pubKeyCollateralAddress = true ∧
    env.activeMasternode ≠ some (mnb.vin.prevout, mnb.pubKeyMasternode) ∧
    (mnb.listedAfter net env s).any isEnabled = false ∧
    mnb.checkInputs env = .good

/-- A broadcast that is added has an empty ping, or one of its own that is at most an hour ahead;
one that updates a masternode fits. -/
structure BroadcastFits (mnb : CMasternodeBroadcast) : Prop where
  updates : mnb.fieldsPass net env = true → ∀ pmn ∈ s.find mnb.vin, pmn.isEnabled = true →
    mnb.updates env pmn = true → pmn.sigTime < mnb.sigTime → UpdateFits net env s mnb pmn
  adds : Adds net env s mnb → mnb.OwnPing net ∧
    (mnb.lastPing.isDefault = true ∨ mnb.lastPing.sigTime ≤ env.adjustedTime + 60 * 60)

end Conditions

/-- The condition on a step: what is handled fits, and a ping that is stored names the whole input
of its masternode. -/
def KeepsPings (net : MasternodeNet) (s : CMasternodeMan) : ListAction → Prop
  | .mnb env mnb => (s.checkAddress env mnb).2 = false →
      (s.checkAddress env mnb).1.mapSeenMasternodeBroadcast.contains (mnb.getHash net) = false →
        BroadcastFits net env (entered net env s mnb) mnb
  | .mnp env mnp => s.mapSeenMasternodePing.contains (net.pingHash mnp.vin mnp.sigTime) = false →
      ∀ mn ∈ s.find mnp.vin, mnp.stores net env true mn = true → mnp.vin = mn.vin
  | _ => True

section Steps

variable {net : MasternodeNet} {env : MasternodeEnv} {before : List ListedMasternode}
  {s : CMasternodeMan} {mnb : CMasternodeBroadcast}

/-- All last pings of the list are fine. -/
def AllFine (net : MasternodeNet) (env : MasternodeEnv) (before : List ListedMasternode)
    (s : CMasternodeMan) : Prop :=
  ∀ mn ∈ s.vMasternodes, PingFine net env before mn

theorem fine_checkAddress (fine : AllFine net env before s) (mnb : CMasternodeBroadcast) :
    AllFine net env before (s.checkAddress env mnb).1 := by
  unfold CMasternodeMan.checkAddress
  split
  · exact fine
  split
  · exact fine
  · refine forall_mem_change fine fun mn found => ?_
    exact (fine mn (mem_of_find?_eq_some found)).check env true

/-- The ping of an update is taken over: `mn` is the masternode that has been updated, and the pings
of all others are fine. -/
theorem fine_takeLastPing {mn : ListedMasternode} (distinct : DistinctOutpoints s.vMasternodes)
    (found : s.find mnb.vin = some mn)
    (others : ∀ other ∈ s.vMasternodes, other.outpoint ≠ mnb.vin.prevout →
      PingFine net env before other)
    (fits : mnb.lastPing.isDefault = true ∨
      ((∀ other ∈ s.find mnb.lastPing.vin, mnb.lastPing.stores net env false other = true →
          mnb.lastPing.vin = other.vin ∧ (other.outpoint = mnb.vin.prevout ∨
            (mnb.lastPing.refresh env other).isEnabled = false)) ∧
        ((∃ other ∈ s.find mnb.lastPing.vin, mnb.lastPing.stores net env false other = true ∧
            other.outpoint = mnb.vin.prevout) ∨ PingFine net env before mn))) :
    AllFine net env before (takeLastPing net env s mnb) := by
  have member : mn ∈ s.vMasternodes := mem_of_find?_eq_some found
  have outpoint : mn.outpoint = mnb.vin.prevout := key_of_find found
  have alone : ∀ other ∈ s.vMasternodes, other.outpoint = mnb.vin.prevout → other = mn :=
    fun other member' here => eq_of_outpoint distinct member' member (here.trans outpoint.symm)
  unfold takeLastPing
  cases default : mnb.lastPing.isDefault with
  | true =>
    intro b inList
    rcases mem_change distinct inList with ⟨a, -, rfl⟩ | ⟨inside, elsewhere⟩
    · exact pingFine_of_default default
    · exact others b inside elsewhere
  | false =>
    rw [default] at fits
    obtain ⟨stored, kept⟩ := fits.resolve_left Bool.false_ne_true
    rcases @CMasternodePing.checkAndUpdate_stores net env s mnb.lastPing false with
      ⟨same, nowhere⟩ | ⟨target, there, stores, list, answer⟩
    · have fine : PingFine net env before mn := by
        rcases kept with ⟨other, here, stores, -⟩ | fine
        · rw [nowhere other here] at stores
          cases stores
        · exact fine
      rw [same]
      intro b inside
      by_cases here : b.outpoint = mnb.vin.prevout
      · rw [alone b inside here]
        exact fine
      · exact others b inside here
    obtain ⟨names, place⟩ := stored target there stores
    have keeps : ∀ mn, (mnb.lastPing.refresh env mn).outpoint = mn.outpoint :=
      fun mn => check_outpoint
    have refreshed : PingFine net env before (mnb.lastPing.refresh env target) :=
      CMasternodePing.fine_refresh stores names
    have distinct' : DistinctOutpoints
        (mnb.lastPing.checkAndUpdate net env s false).1.vMasternodes := by
      rw [list]
      exact distinct.change keeps
    have inTarget : target ∈ s.vMasternodes := mem_of_find?_eq_some there
    have key : target.outpoint = mnb.lastPing.vin.prevout := key_of_find there
    -- behind the ping only the updated masternode may have one that is not fine
    have around : ∀ b ∈ (mnb.lastPing.checkAndUpdate net env s false).1.vMasternodes,
        b.outpoint ≠ mnb.vin.prevout → PingFine net env before b := by
      intro b inList elsewhere
      rw [list] at inList
      rcases mem_change distinct inList with ⟨a, here, rfl⟩ | ⟨inside, -⟩
      · obtain rfl : target = a := Option.some.inj (there.symm.trans here)
        exact refreshed
      · exact others b inside elsewhere
    cases result : mnb.lastPing.checkAndUpdate net env s false with
    | mk t fresh =>
      rw [result] at list answer distinct' around
      cases fresh with
      | true =>
        have own : target = mn := by
          rcases place with here | disabled
          · exact alone target inTarget here
          · rw [disabled] at answer
            cases answer
        subst own
        intro b inList
        rcases mem_change distinct' inList with ⟨a, here, rfl⟩ | ⟨inside, elsewhere⟩
        · have found' : KeyedList.find ListedMasternode.outpoint mnb.vin.prevout
              t.vMasternodes = some (mnb.lastPing.refresh env target) := by
            rw [list, find_change keeps, if_pos (outpoint.symm.trans key), ← key, outpoint]
            exact congrArg (Option.map _) found
          obtain rfl := Option.some.inj (found'.symm.trans here)
          exact refreshed.of_same rfl rfl (by
            unfold CMasternodePing.refresh ListedMasternode.check
            split
            · rfl
            · split <;> rfl)
        · exact around b inside elsewhere
      | false =>
        intro b inList
        by_cases here : b.outpoint = mnb.vin.prevout
        · have inList' : b ∈ t.vMasternodes := inList
          rw [list] at inList'
          rcases mem_change distinct inList' with ⟨a, found', rfl⟩ | ⟨inside, elsewhere⟩
          · obtain rfl : target = a := Option.some.inj (there.symm.trans found')
            exact refreshed
          obtain rfl := alone b inside here
          rcases kept with ⟨other, there', -, place'⟩ | fine
          · obtain rfl : target = other := Option.some.inj (there.symm.trans there')
            exact absurd (here.trans (place'.symm.trans key)) elsewhere
          · exact fine
        · exact around b inList here

theorem fine_checkAndUpdate (distinct : DistinctOutpoints s.vMasternodes)
    (fine : AllFine net env before s)
    (fits : mnb.fieldsPass net env = true → ∀ pmn ∈ s.find mnb.vin, pmn.isEnabled = true →
      mnb.updates env pmn = true → pmn.sigTime < mnb.sigTime → UpdateFits net env s mnb pmn) :
    AllFine net env before (mnb.checkAndUpdate net env s).1 := by
  unfold CMasternodeBroadcast.checkAndUpdate
  cases pass : mnb.fieldsPass net env with
  | false => exact fine
  | true =>
    cases found : s.find mnb.vin with
    | none => exact fine
    | some pmn =>
      by_cases newer : pmn.sigTime > mnb.sigTime
      · simp only [Bool.not_true, Bool.false_eq_true, if_false, if_pos newer]
        exact fine
      simp only [Bool.not_true, Bool.false_eq_true, if_false, if_neg newer]
      cases enabled : pmn.isEnabled with
      | false => exact fine
      | true =>
        cases updates : mnb.updates env pmn with
        | false => exact fine
        | true =>
          unfold updateFromNewBroadcast
          by_cases older : mnb.sigTime ≤ pmn.sigTime
          · simp only [Bool.not_true, Bool.false_eq_true, if_false, if_true, if_pos older]
            exact fine
          have fits := fits pass pmn found enabled updates (Int.not_le.mp older)
          have member : pmn ∈ s.vMasternodes := mem_of_find?_eq_some found
          have moved : (s.change mnb.vin (takeOver mnb)).find mnb.vin =
              some (takeOver mnb pmn) := by
            have keeps : ∀ mn : ListedMasternode, (mn.takeOver mnb).outpoint = mn.outpoint :=
              fun _ => rfl
            have read := @find_change _ _ _ _ mnb.vin.prevout _ keeps s.vMasternodes
              mnb.vin.prevout
            rw [if_pos rfl] at read
            exact read.trans (congrArg (Option.map _) found)
          have others : ∀ other ∈
              (s.change mnb.vin (takeOver mnb)).vMasternodes,
              other.outpoint ≠ mnb.vin.prevout → PingFine net env before other := by
            intro other inList elsewhere
            rcases mem_change distinct inList with ⟨a, here, rfl⟩ | ⟨inside, -⟩
            · exact absurd (key_of_find here) elsewhere
            · exact fine other inside
          have taken : AllFine net env before (takeLastPing net env
              (s.change mnb.vin (takeOver mnb)) mnb) := by
            refine fine_takeLastPing (distinct.change fun _ => rfl) moved others ?_
            refine fits.imp_right fun both => ⟨both.1, both.2.imp_right ?_⟩
            rintro (empty | key)
            · exact pingFine_of_default empty
            · exact (fine pmn member).of_same rfl key.symm rfl
          simp only [Bool.not_true, Bool.false_eq_true, if_false, if_true, if_neg older]
          refine forall_mem_change taken fun mn here => ?_
          exact (taken mn (mem_of_find?_eq_some here)).check env false

theorem fine_checkInputsAndAdd (fine : AllFine net env before s)
    (adds : env.activeMasternode ≠ some (mnb.vin.prevout, mnb.pubKeyMasternode) →
      (s.find mnb.vin).any isEnabled = false → mnb.checkInputs env = .good →
        mnb.OwnPing net ∧ (mnb.lastPing.isDefault = true ∨
          mnb.lastPing.sigTime ≤ env.adjustedTime + 60 * 60)) :
    AllFine net env before (mnb.checkInputsAndAdd net env s).1 := by
  have added : ∀ t : CMasternodeMan, AllFine net env before t →
      (mnb.checkInputs env = .good → mnb.OwnPing net ∧ (mnb.lastPing.isDefault = true ∨
          mnb.lastPing.sigTime ≤ env.adjustedTime + 60 * 60)) →
      AllFine net env before (mnb.addChecked net env t).1 := by
    intro t fine adds
    unfold CMasternodeBroadcast.addChecked
    cases good : mnb.checkInputs env with
    | later => exact fine
    | refused => exact fine
    | good =>
      have new : PingFine net env before (ofBroadcast env mnb) := by
        obtain ⟨own, inTime⟩ := adds good
        have vin : (ofBroadcast env mnb).toCMasternodeBroadcast = mnb := by
          unfold ofBroadcast
          split <;> rfl
        refine ⟨by rw [vin]; exact own, ?_⟩
        unfold StoredInTime
        rw [vin]
        exact inTime.imp_right Or.inl
      show AllFine net env before (t.add (ofBroadcast env mnb))
      unfold CMasternodeMan.add
      split
      · exact fine
      split
      · exact fine
      intro mn member
      rcases mem_append.mp member with inside | last
      · exact fine mn inside
      · rw [mem_singleton.mp last]
        exact new
  obtain ⟨-, same⟩ | ⟨notOwn, ⟨found, same⟩ | ⟨pmn, found, disabled, same⟩⟩ :=
    mnb.checkInputsAndAdd_cases net env s
  · rw [same]
    exact fine
  · rw [found] at adds
    rw [same]
    exact added s fine (adds notOwn rfl)
  · rw [found] at adds
    rw [same]
    refine added (s.remove pmn.vin) ?_ (adds notOwn disabled)
    exact fun mn member => fine mn (eraseP_sublist.subset member)

/-- A broadcast that fits leaves all pings fine. -/
theorem fine_processBroadcast (distinct : DistinctOutpoints s.vMasternodes)
    (fine : AllFine net env before s)
    (fits : (s.checkAddress env mnb).2 = false →
      (s.checkAddress env mnb).1.mapSeenMasternodeBroadcast.contains (mnb.getHash net) = false →
        BroadcastFits net env (entered net env s mnb) mnb) :
    AllFine net env before (s.processBroadcast net env mnb).1 := by
  have looked := fine_checkAddress fine mnb
  rcases processBroadcast_cases env mnb with same | ⟨notFound, absent, same⟩
  · rw [same]
    exact looked
  obtain ⟨updates, adds⟩ := fits notFound absent
  have entry : DistinctOutpoints (entered net env s mnb).vMasternodes :=
    (edited_checkAddress env mnb (Edited.refl s.vMasternodes)).distinct distinct
  have updated : AllFine net env before
      (mnb.checkAndUpdate net env (entered net env s mnb)).1 :=
    fine_checkAndUpdate entry looked updates
  rw [same]
  unfold CMasternodeMan.handleBroadcast
  cases result : mnb.checkAndUpdate net env (entered net env s mnb) with
  | mk t ok =>
    rw [result] at updated
    cases ok with
    | false => exact updated
    | true =>
      cases associated : env.isVinAssociatedWithPubkey net mnb.vin
          mnb.pubKeyCollateralAddress with
      | false => exact updated
      | true =>
        refine fine_checkInputsAndAdd updated fun notOwn disabled good => ?_
        refine adds ⟨by rw [result], associated, notOwn, ?_, good⟩
        rw [CMasternodeBroadcast.listedAfter_eq (by rw [result]), result]
        exact disabled

theorem fine_processPing {mnp : CMasternodePing} (fine : AllFine net env before s)
    (names : s.mapSeenMasternodePing.contains (net.pingHash mnp.vin mnp.sigTime) = false →
      ∀ mn ∈ s.find mnp.vin, mnp.stores net env true mn = true → mnp.vin = mn.vin) :
    AllFine net env before (s.processPing net env mnp).1 := by
  simp only [CMasternodeMan.processPing]
  cases seen : s.mapSeenMasternodePing.contains (net.pingHash mnp.vin mnp.sigTime) with
  | true => exact fine
  | false =>
    rw [if_neg Bool.false_ne_true]
    have noted : AllFine net env before { s with
        mapSeenMasternodePing :=
          s.mapSeenMasternodePing.insert (net.pingHash mnp.vin mnp.sigTime) mnp } := fine
    rcases CMasternodePing.checkAndUpdate_stores true with
      ⟨same, -⟩ | ⟨target, found, stores, list, -⟩
    · rw [same]
      exact noted
    intro mn member
    rw [list] at member
    refine forall_mem_change noted (fun mn here => ?_) mn member
    obtain rfl : target = mn := Option.some.inj (found.symm.trans here)
    exact CMasternodePing.fine_refresh stores (names seen target found stores)

end Steps

/-! ## Runs -/

section Runs

variable {net : MasternodeNet} {s : CMasternodeMan}

/-- The pings that an action leaves in the list are empty, at most an hour ahead or there before. -/
def ListAction.storesInTime (net : MasternodeNet) (s : CMasternodeMan) (a : ListAction) : Prop :=
  ∀ mn ∈ (listStep net s a).vMasternodes, match a with
    | .mnb env _ => StoredInTime env s.vMasternodes mn
    | .mnp env _ => StoredInTime env s.vMasternodes mn
    | _ => ∃ old ∈ s.vMasternodes, old.outpoint = mn.outpoint ∧ old.lastPing = mn.lastPing

theorem ListedMasternode.check_lastPing {env : MasternodeEnv} {forceCheck : Bool}
    {mn : ListedMasternode} : (mn.check env forceCheck).lastPing = mn.lastPing := by
  unfold check
  split
  · rfl
  · split <;> rfl

theorem ListedMasternode.ownPing_check {env : MasternodeEnv} {forceCheck : Bool}
    {mn : ListedMasternode} (own : mn.OwnPing net) : (mn.check env forceCheck).OwnPing net := by
  unfold check
  split
  · exact own
  · split <;> exact own

/-- A step that meets the condition leaves every ping the masternode's own, and stores it in
time. -/
theorem ownPings_listStep {a : ListAction} (distinct : DistinctOutpoints s.vMasternodes)
    (own : ∀ mn ∈ s.vMasternodes, mn.OwnPing net) (keeps : KeepsPings net s a) :
    (∀ mn ∈ (listStep net s a).vMasternodes, mn.OwnPing net) ∧ a.storesInTime net s := by
  have fine : ∀ env, AllFine net env s.vMasternodes s :=
    fun env mn member => pingFine_of_mem (own mn member) member
  have checked : ∀ env, ∀ mn ∈ (s.checkAll env).vMasternodes, mn.OwnPing net ∧
      ∃ old ∈ s.vMasternodes, old.outpoint = mn.outpoint ∧ old.lastPing = mn.lastPing := by
    intro env mn member
    obtain ⟨old, inside, rfl⟩ := mem_map.mp member
    refine ⟨ownPing_check (own old inside), old, inside, ?_, ?_⟩
    · exact check_outpoint.symm
    · exact check_lastPing.symm
  cases a with
  | mnb env mnb =>
    have all := fine_processBroadcast distinct (fine env) keeps
    exact ⟨fun mn member => (all mn member).own, fun mn member => (all mn member).inTime⟩
  | mnp env mnp =>
    have all := fine_processPing (fine env) keeps
    exact ⟨fun mn member => (all mn member).own, fun mn member => (all mn member).inTime⟩
  | check env =>
    exact ⟨fun mn member => (checked env mn member).1, fun mn member => (checked env mn member).2⟩
  | checkAndRemove env forceExpiredRemoval =>
    exact ⟨fun mn member => (checked env mn (mem_of_mem_filter member)).1,
      fun mn member => (checked env mn (mem_of_mem_filter member)).2⟩
  | remove vin =>
    have inside : ∀ mn ∈ (s.remove vin).vMasternodes, mn ∈ s.vMasternodes :=
      fun mn member => eraseP_sublist.subset member
    exact ⟨fun mn member => own mn (inside mn member),
      fun mn member => ⟨mn, inside mn member, rfl, rfl⟩⟩

end Runs

section Decidable

variable (net : MasternodeNet) (env : MasternodeEnv) (s : CMasternodeMan)
  (mnb : CMasternodeBroadcast)

instance (pmn : ListedMasternode) : Decidable (UpdateFits net env s mnb pmn) :=
  inferInstanceAs (Decidable (_ ∨ ((∀ mn ∈ _, _) ∧ ((∃ mn ∈ _, _) ∨ _))))

instance : Decidable (Adds net env s mnb) :=
  inferInstanceAs (Decidable (_ ∧ _ ∧ _ ∧ _ ∧ _))

instance : Decidable (BroadcastFits net env s mnb) :=
  decidable_of_iff
    ((mnb.fieldsPass net env = true → ∀ pmn ∈ s.find mnb.vin, pmn.isEnabled = true →
        mnb.updates env pmn = true → pmn.sigTime < mnb.sigTime → UpdateFits net env s mnb pmn) ∧
      (Adds net env s mnb → mnb.OwnPing net ∧
        (mnb.lastPing.isDefault = true ∨ mnb.lastPing.sigTime ≤ env.adjustedTime + 60 * 60)))
    ⟨fun both => ⟨both.1, both.2⟩, fun fits => ⟨fits.updates, fits.adds⟩⟩

instance (a : ListAction) : Decidable (KeepsPings net s a) :=
  match a with
  | .mnb _ _ => inferInstanceAs (Decidable (_ → _ → BroadcastFits _ _ _ _))
  | .mnp _ _ => inferInstanceAs (Decidable (_ → ∀ mn ∈ _, _))
  | .check _ => inferInstanceAs (Decidable True)
  | .checkAndRemove _ _ => inferInstanceAs (Decidable True)
  | .remove _ => inferInstanceAs (Decidable True)

end Decidable

def signedPing (n : UInt32) (sigTime : Int) : CMasternodePing :=
  let ping := samplePing n sigTime
  { ping with vchSig := ping.strMessage.map fun c => c.toNat.toUInt8 }

/-- The broadcast of the first output of transaction 7 at time 1000, with a ping. -/
def announceWith (lastPing : CMasternodePing) : ListAction :=
  .mnb (sampleMasternodeEnv [sampleCollateral 7 (sampleKey 1)] 1000)
    (sampleBroadcast ⟨7, 0⟩ (sampleService 4) 1000 lastPing)

end Esbcoin
