import Esbcoin.Masternode.Addresses

/-!
# Messages that are rejected

'mnb' and 'mnp' note a message in a seen map before they check it, under a hash of few of its fields
(`src/masternode.h:69-75`, `:333-339`), and some checks come after a change of the list. Two runs
are compared, one of all messages and one without those that are rejected.
-/

namespace Esbcoin

open KeyedList StepRun CMasternodePing ListedMasternode

/-! ## Lists that are alike up to the time of the last check -/

namespace ListedMasternode

/-- A masternode without the time of its last check. -/
def forgetTime (mn : ListedMasternode) : ListedMasternode := { mn with lastTimeChecked := 0 }

variable {mn other : ListedMasternode} {env : MasternodeEnv}

theorem eq_of_forgetTime (same : mn.forgetTime = other.forgetTime) :
    ∃ time, mn = { other with lastTimeChecked := time } := by
  refine ⟨mn.lastTimeChecked, ?_⟩
  cases mn
  cases other
  simp only [forgetTime, mk.injEq, and_true] at same ⊢
  exact same

/-- A forced check does not look at the time of the last one. -/
theorem forgetTime_check (same : mn.forgetTime = other.forgetTime) :
    (mn.check env true).forgetTime = (other.check env true).forgetTime := by
  obtain ⟨time, rfl⟩ := eq_of_forgetTime same
  unfold check
  split
  · exact same
  · rfl

/-- A check that leaves the state changes the time at most. -/
theorem forgetTime_check_of_state (state : (mn.check env true).activeState = mn.activeState) :
    (mn.check env true).forgetTime = mn.forgetTime := by
  by_cases shutdown : env.shutdownRequested = true
  · unfold check
    rw [if_pos shutdown]
  have checked : mn.check env true =
      { mn with activeState := mn.checkedState env, lastTimeChecked := env.time } := by
    unfold check
    rw [if_neg shutdown, Bool.not_true, Bool.false_and, if_neg Bool.false_ne_true]
  rw [checked] at state ⊢
  have same : mn.checkedState env = mn.activeState := state
  rw [forgetTime, forgetTime, same]

theorem forgetTime_refresh {ping : CMasternodePing} (same : mn.forgetTime = other.forgetTime) :
    (refresh env ping mn).forgetTime =
      (refresh env ping other).forgetTime := by
  apply forgetTime_check
  obtain ⟨time, rfl⟩ := eq_of_forgetTime same
  rfl

theorem takeOver_of_forgetTime {mnb : CMasternodeBroadcast}
    (same : mn.forgetTime = other.forgetTime) : mn.takeOver mnb = other.takeOver mnb := by
  obtain ⟨time, rfl⟩ := eq_of_forgetTime same
  rfl

theorem outpoint_of_forgetTime (mn other : ListedMasternode)
    (same : mn.forgetTime = other.forgetTime) : mn.outpoint = other.outpoint := by
  obtain ⟨time, rfl⟩ := eq_of_forgetTime same
  rfl

end ListedMasternode

/-- Lists that agree up to check times, where `s` has seen more. -/
structure Beside (s t : CMasternodeMan) : Prop where
  list : s.vMasternodes.map ListedMasternode.forgetTime =
    t.vMasternodes.map ListedMasternode.forgetTime
  broadcasts : s.mapSeenMasternodeBroadcast.Covers t.mapSeenMasternodeBroadcast
  pings : s.mapSeenMasternodePing.Covers t.mapSeenMasternodePing

/-- The masternode of an input is also the same in its time. -/
structure BesideAt (vin : CTxIn) (s t : CMasternodeMan) : Prop extends Beside s t where
  here : s.find vin = t.find vin

/-- A call ends beside the other and with the same answer. -/
structure AnswersAlike (p q : CMasternodeMan × Bool) : Prop where
  beside : Beside p.1 q.1
  answer : p.2 = q.2

namespace Beside

variable {s t : CMasternodeMan} {vin : CTxIn} {f : ListedMasternode → ListedMasternode}

theorem refl (s : CMasternodeMan) : Beside s s :=
  ⟨rfl, AssocMap.Covers.refl _, AssocMap.Covers.refl _⟩

section

variable (h : Beside s t)
include h

theorem find (vin : CTxIn) :
    (s.find vin).map ListedMasternode.forgetTime = (t.find vin).map ListedMasternode.forgetTime :=
  map_find_of_alike ListedMasternode.outpoint_of_forgetTime h.list

/-- Both find nothing, or the same masternode up to the time. -/
theorem find_cases (vin : CTxIn) : (s.find vin = none ∧ t.find vin = none) ∨
    ∃ (mn : ListedMasternode) (time : Int),
      s.find vin = some { mn with lastTimeChecked := time } ∧ t.find vin = some mn := by
  have same := h.find vin
  cases found : t.find vin with
  | none =>
    rw [found, Option.map_none, Option.map_eq_none_iff] at same
    exact Or.inl ⟨same, rfl⟩
  | some mn =>
    rw [found, Option.map_some, Option.map_eq_some_iff] at same
    obtain ⟨mn', found', same⟩ := same
    obtain ⟨time, rfl⟩ := ListedMasternode.eq_of_forgetTime same
    exact Or.inr ⟨mn, time, found', rfl⟩

theorem isEnabled (vin : CTxIn) :
    (s.find vin).any ListedMasternode.isEnabled = (t.find vin).any ListedMasternode.isEnabled := by
  rcases h.find_cases vin with ⟨none, none'⟩ | ⟨mn, time, found, found'⟩
  · rw [none, none']
  · rw [found, found']
    rfl

theorem isSome (vin : CTxIn) : (s.find vin).isSome = (t.find vin).isSome := by
  rcases h.find_cases vin with ⟨none, none'⟩ | ⟨mn, time, found, found'⟩
  · rw [none, none']
  · rw [found, found']
    rfl

theorem change
    (tells : ∀ mn other : ListedMasternode, mn.forgetTime = other.forgetTime →
      (f mn).forgetTime = (f other).forgetTime)
    : Beside (s.change vin f) (t.change vin f) :=
  ⟨map_change_of_alike ListedMasternode.outpoint_of_forgetTime h.list
    fun mn other _ _ => tells mn other, h.broadcasts, h.pings⟩

theorem remove (vin : CTxIn) : Beside (s.remove vin) (t.remove vin) := by
  refine ⟨map_remove_of_alike ?_ h.list, h.broadcasts, h.pings⟩
  intro mn other same
  obtain ⟨time, rfl⟩ := ListedMasternode.eq_of_forgetTime same
  rfl

theorem add (mn : ListedMasternode) : Beside (s.add mn) (t.add mn) := by
  unfold CMasternodeMan.add
  rw [h.isSome]
  split
  · exact h
  split
  · exact h
  · refine ⟨?_, h.broadcasts, h.pings⟩
    rw [List.map_append, List.map_append, h.list]

end

end Beside

namespace BesideAt

variable {s t : CMasternodeMan} {vin : CTxIn} {f : ListedMasternode → ListedMasternode}

/-- A broadcast that is taken over leaves no trace of the time. -/
theorem takeOver (h : Beside s t) (mnb : CMasternodeBroadcast) (vin : CTxIn) :
    BesideAt vin (s.change vin (ListedMasternode.takeOver mnb))
      (t.change vin (ListedMasternode.takeOver mnb)) where
  toBeside := h.change fun mn other same => by
    rw [ListedMasternode.takeOver_of_forgetTime same]
  here := by
    have found : ∀ s : CMasternodeMan,
        (s.change vin (ListedMasternode.takeOver mnb)).find vin =
          (s.find vin).map (ListedMasternode.takeOver mnb) := by
      intro s
      have read := @find_change _ _ _ outpoint vin.prevout
        (ListedMasternode.takeOver mnb) (fun _ => rfl) s.vMasternodes vin.prevout
      rw [if_pos rfl] at read
      exact read
    rw [found, found]
    rcases h.find_cases vin with ⟨none, none'⟩ | ⟨mn, time, here, here'⟩
    · rw [none, none']
    · rw [here, here']
      rfl

/-- Where the masternode is the same in its time, any change leaves the lists alike. -/
theorem change (h : BesideAt vin s t) (f : ListedMasternode → ListedMasternode) :
    Beside (s.change vin f) (t.change vin f) := by
  refine ⟨map_change_of_alike ListedMasternode.outpoint_of_forgetTime h.list ?_, h.broadcasts,
    h.pings⟩
  intro mn other found found' _
  have same := h.here
  unfold CMasternodeMan.find at same
  rw [found, found'] at same
  rw [Option.some.inj same]

end BesideAt

/-! ## Calls on lists that are alike -/

section Calls

variable {net : MasternodeNet} {env : MasternodeEnv} {s t : CMasternodeMan}

theorem Beside.update (h : Beside s t) (ping : CMasternodePing) (mn : ListedMasternode)
    (time : Int) : Beside (ping.update net env s { mn with lastTimeChecked := time })
      (ping.update net env t mn) := by
  refine ⟨?_, h.broadcasts.modify _ _, h.pings⟩
  rw [vMasternodes_update, vMasternodes_update]
  exact map_change_of_alike ListedMasternode.outpoint_of_forgetTime h.list
    fun mn other _ _ => ListedMasternode.forgetTime_refresh

theorem Beside.checkAndUpdate (h : Beside s t) (ping : CMasternodePing) (fRequireEnabled : Bool) :
    AnswersAlike (ping.checkAndUpdate net env s fRequireEnabled)
      (ping.checkAndUpdate net env t fRequireEnabled) := by
  unfold CMasternodePing.checkAndUpdate
  cases ping.isTimely env with
  | false => exact ⟨h, rfl⟩
  | true =>
    rcases h.find_cases ping.vin with ⟨none, none'⟩ | ⟨mn, time, found, found'⟩
    · rw [none, none']
      exact ⟨h, rfl⟩
    have passes : ping.passesFor net env fRequireEnabled { mn with lastTimeChecked := time } =
        ping.passesFor net env fRequireEnabled mn := rfl
    rw [found, found']
    simp only [Bool.not_true, Bool.false_eq_true, if_false, passes]
    cases ping.passesFor net env fRequireEnabled mn with
    | false => exact ⟨h, rfl⟩
    | true => exact ⟨h.update ping mn time, (h.update ping mn time).isEnabled ping.vin⟩

/-- A ping does not change what is the same in its time. -/
theorem BesideAt.checkAndUpdate {vin : CTxIn} (h : BesideAt vin s t) (ping : CMasternodePing)
    (fRequireEnabled : Bool) :
    BesideAt vin (ping.checkAndUpdate net env s fRequireEnabled).1
      (ping.checkAndUpdate net env t fRequireEnabled).1 where
  toBeside := (h.toBeside.checkAndUpdate ping fRequireEnabled).beside
  here := by
    have refreshed : ∀ (s : CMasternodeMan) (pmn : ListedMasternode),
        (ping.update net env s pmn).find vin = if vin.prevout = ping.vin.prevout then
          (s.find ping.vin).map (refresh env ping) else s.find vin := by
      intro s pmn
      unfold CMasternodeMan.find
      rw [vMasternodes_update]
      exact @find_change _ _ _ outpoint ping.vin.prevout
        (refresh env ping) (fun mn => check_outpoint)
        s.vMasternodes vin.prevout
    have same : ∀ pmn pmn', (ping.update net env s pmn).find vin =
        (ping.update net env t pmn').find vin := by
      intro pmn pmn'
      rw [refreshed, refreshed]
      by_cases equal : vin.prevout = ping.vin.prevout
      · have here := h.here
        unfold CMasternodeMan.find at here ⊢
        rw [if_pos equal, if_pos equal, ← equal, here]
      · rw [if_neg equal, if_neg equal, h.here]
    unfold CMasternodePing.checkAndUpdate
    cases ping.isTimely env with
    | false => exact h.here
    | true =>
      rcases h.find_cases ping.vin with ⟨none, none'⟩ | ⟨mn, time, found, found'⟩
      · rw [none, none']
        exact h.here
      have passes : ping.passesFor net env fRequireEnabled { mn with lastTimeChecked := time } =
          ping.passesFor net env fRequireEnabled mn := rfl
      rw [found, found']
      simp only [Bool.not_true, Bool.false_eq_true, if_false, passes]
      cases ping.passesFor net env fRequireEnabled mn with
      | false => exact h.here
      | true => exact same _ _

/-- The ping of a broadcast is taken over alike. -/
theorem BesideAt.takeLastPing {mnb : CMasternodeBroadcast} (h : BesideAt mnb.vin s t) :
    BesideAt mnb.vin (takeLastPing net env s mnb) (takeLastPing net env t mnb) := by
  have moved : ∀ {s t : CMasternodeMan}, BesideAt mnb.vin s t →
      BesideAt mnb.vin
        { s.change mnb.vin (fun mn => { mn with lastPing := mnb.lastPing }) with
          mapSeenMasternodePing := s.mapSeenMasternodePing.insertNew
            (net.pingHash mnb.lastPing.vin mnb.lastPing.sigTime) mnb.lastPing }
        { t.change mnb.vin (fun mn => { mn with lastPing := mnb.lastPing }) with
          mapSeenMasternodePing := t.mapSeenMasternodePing.insertNew
            (net.pingHash mnb.lastPing.vin mnb.lastPing.sigTime) mnb.lastPing } := by
    intro s t h
    have read := fun s : CMasternodeMan =>
      @find_change _ _ _ outpoint mnb.vin.prevout
        (fun mn => { mn with lastPing := mnb.lastPing }) (fun _ => rfl) s.vMasternodes
        mnb.vin.prevout
    refine ⟨⟨(h.change _).list, h.broadcasts, h.pings.insertNew _ _⟩, ?_⟩
    have here := h.here
    unfold CMasternodeMan.find at here ⊢
    refine (read s).trans (Eq.trans ?_ (read t).symm)
    rw [if_pos rfl, if_pos rfl, here]
  unfold Esbcoin.takeLastPing
  cases mnb.lastPing.isDefault with
  | true => exact moved h
  | false =>
    have pinged : BesideAt mnb.vin (mnb.lastPing.checkAndUpdate net env s false).1
        (mnb.lastPing.checkAndUpdate net env t false).1 := h.checkAndUpdate mnb.lastPing false
    have answer : (mnb.lastPing.checkAndUpdate net env s false).2 =
        (mnb.lastPing.checkAndUpdate net env t false).2 :=
      (h.toBeside.checkAndUpdate mnb.lastPing false).answer
    cases result : mnb.lastPing.checkAndUpdate net env s false with
    | mk s' fresh =>
      cases result' : mnb.lastPing.checkAndUpdate net env t false with
      | mk t' fresh' =>
        rw [result, result'] at pinged answer
        obtain rfl : fresh = fresh' := answer
        cases fresh with
        | false => exact pinged
        | true => exact moved pinged

theorem Beside.checkAndUpdateBroadcast (h : Beside s t) (mnb : CMasternodeBroadcast) :
    AnswersAlike (mnb.checkAndUpdate net env s) (mnb.checkAndUpdate net env t) := by
  unfold CMasternodeBroadcast.checkAndUpdate
  cases mnb.fieldsPass net env with
  | false => exact ⟨h, rfl⟩
  | true =>
    rcases h.find_cases mnb.vin with ⟨none, none'⟩ | ⟨mn, time, found, found'⟩
    · rw [none, none']
      exact ⟨h, rfl⟩
    rw [found, found']
    have updates : mnb.updates env { mn with lastTimeChecked := time } = mnb.updates env mn := rfl
    have enabled : ({ mn with lastTimeChecked := time } : ListedMasternode).isEnabled =
      mn.isEnabled := rfl
    simp only [Bool.not_true, Bool.false_eq_true, if_false, updates, enabled]
    by_cases newer : mn.sigTime > mnb.sigTime
    · rw [if_pos newer, if_pos newer]
      exact ⟨h, rfl⟩
    rw [if_neg newer, if_neg newer]
    cases mn.isEnabled with
    | false => exact ⟨h, rfl⟩
    | true =>
      cases mnb.updates env mn with
      | false => exact ⟨h, rfl⟩
      | true =>
        unfold updateFromNewBroadcast
        by_cases older : mnb.sigTime ≤ mn.sigTime
        · simp only [Bool.not_true, Bool.false_eq_true, if_false, if_true, if_pos older]
          exact ⟨h, rfl⟩
        · simp only [Bool.not_true, Bool.false_eq_true, if_false, if_true, if_neg older]
          exact ⟨(BesideAt.takeOver h mnb mnb.vin).takeLastPing.change _, rfl⟩

theorem Beside.addChecked (h : Beside s t) (mnb : CMasternodeBroadcast) :
    AnswersAlike (mnb.addChecked net env s) (mnb.addChecked net env t) := by
  unfold CMasternodeBroadcast.addChecked
  cases mnb.checkInputs env with
  | later => exact ⟨⟨h.list, h.broadcasts.erase _, h.pings⟩, rfl⟩
  | refused => exact ⟨h, rfl⟩
  | good => exact ⟨h.add _, rfl⟩

theorem Beside.checkInputsAndAdd (h : Beside s t) (mnb : CMasternodeBroadcast) :
    AnswersAlike (mnb.checkInputsAndAdd net env s) (mnb.checkInputsAndAdd net env t) := by
  unfold CMasternodeBroadcast.checkInputsAndAdd
  by_cases own : env.activeMasternode = some (mnb.vin.prevout, mnb.pubKeyMasternode)
  · rw [if_pos own, if_pos own]
    exact ⟨h, rfl⟩
  rw [if_neg own, if_neg own]
  rcases h.find_cases mnb.vin with ⟨none, none'⟩ | ⟨mn, time, found, found'⟩
  · rw [none, none']
    exact h.addChecked mnb
  rw [found, found']
  have enabled : ({ mn with lastTimeChecked := time } : ListedMasternode).isEnabled =
    mn.isEnabled := rfl
  simp only [enabled]
  cases mn.isEnabled with
  | true => exact ⟨h, rfl⟩
  | false => exact (h.remove mn.vin).addChecked mnb

/-- 'mnb' is handled alike behind the seen map. -/
theorem Beside.handleBroadcast (h : Beside s t) (mnb : CMasternodeBroadcast) :
    AnswersAlike (s.handleBroadcast net env mnb) (t.handleBroadcast net env mnb) := by
  have updated : AnswersAlike (mnb.checkAndUpdate net env s) (mnb.checkAndUpdate net env t) :=
    h.checkAndUpdateBroadcast mnb
  unfold CMasternodeMan.handleBroadcast
  cases result : mnb.checkAndUpdate net env s with
  | mk s' ok =>
    cases result' : mnb.checkAndUpdate net env t with
    | mk t' ok' =>
      rw [result, result'] at updated
      obtain rfl : ok = ok' := updated.answer
      cases ok with
      | false => exact ⟨updated.beside, rfl⟩
      | true =>
        cases env.isVinAssociatedWithPubkey net mnb.vin mnb.pubKeyCollateralAddress with
        | false => exact ⟨updated.beside, rfl⟩
        | true => exact updated.beside.checkInputsAndAdd mnb

theorem Beside.checkAddress (h : Beside s t) (mnb : CMasternodeBroadcast) :
    AnswersAlike (s.checkAddress env mnb) (t.checkAddress env mnb) := by
  have tells : ∀ mn other : ListedMasternode, mn.forgetTime = other.forgetTime →
      mn.addr = other.addr := by
    intro mn other same
    obtain ⟨time, rfl⟩ := ListedMasternode.eq_of_forgetTime same
    rfl
  have found : (s.findAddr mnb.addr).map ListedMasternode.forgetTime =
      (t.findAddr mnb.addr).map ListedMasternode.forgetTime := map_find_of_alike tells h.list
  unfold CMasternodeMan.checkAddress
  cases here' : t.findAddr mnb.addr with
  | none =>
    rw [here', Option.map_none, Option.map_eq_none_iff] at found
    rw [found]
    exact ⟨h, rfl⟩
  | some mn =>
    rw [here', Option.map_some, Option.map_eq_some_iff] at found
    obtain ⟨mn', here, same⟩ := found
    have checked : (mn'.check env true).isEnabled = (mn.check env true).isEnabled := by
      have after : (mn'.check env true).forgetTime = (mn.check env true).forgetTime :=
        ListedMasternode.forgetTime_check same
      obtain ⟨time, equal⟩ := ListedMasternode.eq_of_forgetTime after
      rw [equal]
      rfl
    have vin : mn'.vin = mn.vin := by
      obtain ⟨time, rfl⟩ := ListedMasternode.eq_of_forgetTime same
      rfl
    rw [here]
    simp only [vin]
    by_cases own : mn.vin = mnb.vin
    · rw [if_pos own, if_pos own]
      exact ⟨h, rfl⟩
    · rw [if_neg own, if_neg own]
      exact ⟨⟨map_change_of_alike tells h.list fun _ _ _ _ => ListedMasternode.forgetTime_check,
        h.broadcasts, h.pings⟩, checked⟩

end Calls

/-! ## The two runs -/

/-- A message of a peer, with what the node reads while it handles it. -/
inductive MasternodeMessage where
  | mnb (env : MasternodeEnv) (mnb : CMasternodeBroadcast)
  | mnp (env : MasternodeEnv) (mnp : CMasternodePing)

section Runs

variable (net : MasternodeNet)

/-- A step of the list: one message comes in. -/
def receiveStep (s : CMasternodeMan) : MasternodeMessage → CMasternodeMan
  | .mnb env mnb => (s.processBroadcast net env mnb).1
  | .mnp env mnp => (s.processPing net env mnp).1

/-- A message fails a check in the state it meets, seen before or not. -/
def Rejected (s : CMasternodeMan) : MasternodeMessage → Prop
  | .mnb env mnb => (s.checkAddress env mnb).2 = true ∨
      ((s.checkAddress env mnb).1.handleBroadcast net env mnb).2 = false
  | .mnp env mnp => (mnp.checkAndUpdate net env s true).2 = false

instance (s : CMasternodeMan) (m : MasternodeMessage) : Decidable (Rejected net s m) :=
  match m with
  | .mnb _ _ => inferInstanceAs (Decidable (_ ∨ _))
  | .mnp _ _ => inferInstanceAs (Decidable (_ = false))

/-- The message is in its seen map. -/
def isSeen (s : CMasternodeMan) : MasternodeMessage → Bool
  | .mnb _ mnb => s.mapSeenMasternodeBroadcast.contains (mnb.getHash net)
  | .mnp _ mnp => s.mapSeenMasternodePing.contains (net.pingHash mnp.vin mnp.sigTime)

/-- The messages that pass their checks in the run of all messages. -/
def dropRejected : CMasternodeMan → List MasternodeMessage → List MasternodeMessage
  | _, [] => []
  | s, m :: messages =>
    if Rejected net s m then dropRejected (receiveStep net s m) messages
    else m :: dropRejected (receiveStep net s m) messages

/-- A step of the run of all messages, and of the run without those that are rejected in it. -/
def bothStep (p : CMasternodeMan × CMasternodeMan) (m : MasternodeMessage) :
    CMasternodeMan × CMasternodeMan :=
  (receiveStep net p.1 m, if Rejected net p.1 m then p.2 else receiveStep net p.2 m)

/-- A rejected message finds nothing to change: the check of the masternode at its address leaves
its state, and the check it fails comes before an update or a removal. -/
def StandsAside (s : CMasternodeMan) : MasternodeMessage → Prop
  | .mnb env mnb =>
    (∀ pmn, s.findAddr mnb.addr = some pmn → pmn.vin ≠ mnb.vin →
        (pmn.check env true).activeState = pmn.activeState) ∧
      ((s.checkAddress env mnb).2 = false → mnb.fieldsPass net env = true →
        ∀ pmn, s.find mnb.vin = some pmn → pmn.sigTime ≤ mnb.sigTime →
          (pmn.isEnabled = true → mnb.updates env pmn = true → mnb.sigTime ≤ pmn.sigTime) ∧
            (pmn.isEnabled = false →
              env.isVinAssociatedWithPubkey net mnb.vin mnb.pubKeyCollateralAddress = false))
  | .mnp env mnp => mnp.isTimely env = true → ∀ pmn, s.find mnp.vin = some pmn →
      mnp.passesFor net env true pmn = false

/-- A rejected message stands aside; one that passes is not held up by a rejected one in the seen
map. -/
def LeavesNoTrace (p : CMasternodeMan × CMasternodeMan) (m : MasternodeMessage) : Prop :=
  (Rejected net p.1 m → StandsAside net p.1 m) ∧
    (¬ Rejected net p.1 m → isSeen net p.1 m = true → isSeen net p.2 m = true)

end Runs

/-- What the peers of a node see of its list. -/
def listView (s : CMasternodeMan) : List (CTxIn × CService × CPubKey × CPubKey × Int) :=
  s.vMasternodes.map fun mn =>
    (mn.vin, mn.addr, mn.pubKeyCollateralAddress, mn.pubKeyMasternode, mn.lastPing.sigTime)

theorem Beside.listView {s t : CMasternodeMan} (h : Beside s t) : listView s = listView t := by
  have read : ∀ s : CMasternodeMan, Esbcoin.listView s =
      (s.vMasternodes.map ListedMasternode.forgetTime).map fun mn =>
        (mn.vin, mn.addr, mn.pubKeyCollateralAddress, mn.pubKeyMasternode, mn.lastPing.sigTime) := by
    intro s
    rw [List.map_map]
    rfl
  rw [read, read, h.list]

section Steps

variable {net : MasternodeNet} {env : MasternodeEnv} {s t : CMasternodeMan}

theorem run_bothStep_fst (p : CMasternodeMan × CMasternodeMan)
    (messages : List MasternodeMessage) :
    (run (bothStep net) p messages).1 = run (receiveStep net) p.1 messages := by
  induction messages generalizing p with
  | nil => rfl
  | cons m messages ih => exact ih (bothStep net p m)

theorem run_bothStep_snd (p : CMasternodeMan × CMasternodeMan)
    (messages : List MasternodeMessage) : (run (bothStep net) p messages).2 =
      run (receiveStep net) p.2 (dropRejected net p.1 messages) := by
  induction messages generalizing p with
  | nil => rfl
  | cons m messages ih =>
    rw [run_cons, ih]
    by_cases rejected : Rejected net p.1 m
    · simp only [bothStep, dropRejected, if_pos rejected]
    · simp only [bothStep, dropRejected, if_neg rejected, run_cons]

theorem maps_checkAddress (mnb : CMasternodeBroadcast) :
    (s.checkAddress env mnb).1.mapSeenMasternodeBroadcast = s.mapSeenMasternodeBroadcast ∧
      (s.checkAddress env mnb).1.mapSeenMasternodePing = s.mapSeenMasternodePing := by
  unfold CMasternodeMan.checkAddress
  split
  · exact ⟨rfl, rfl⟩
  · split
    · exact ⟨rfl, rfl⟩
    · exact ⟨rfl, rfl⟩

/-- A message that passes, and is seen in both runs or in none, is received alike. -/
theorem Beside.receive (h : Beside s t) (m : MasternodeMessage)
    (seen : isSeen net s m = true → isSeen net t m = true) :
    Beside (receiveStep net s m) (receiveStep net t m) := by
  cases m with
  | mnb env mnb =>
    have looked : AnswersAlike (s.checkAddress env mnb) (t.checkAddress env mnb) :=
      h.checkAddress mnb
    have maps := (@maps_checkAddress env s mnb).1
    have maps' := (@maps_checkAddress env t mnb).1
    have seenAlike : s.mapSeenMasternodeBroadcast.contains (mnb.getHash net) =
        t.mapSeenMasternodeBroadcast.contains (mnb.getHash net) :=
      Bool.eq_iff_iff.mpr ⟨seen, h.broadcasts _⟩
    simp only [receiveStep, CMasternodeMan.processBroadcast]
    cases result : s.checkAddress env mnb with
    | mk s' duplicate =>
      cases result' : t.checkAddress env mnb with
      | mk t' duplicate' =>
        rw [result, result'] at looked
        rw [result] at maps
        rw [result'] at maps'
        obtain rfl : duplicate = duplicate' := looked.answer
        cases duplicate with
        | true => exact looked.beside
        | false =>
          simp only at maps maps' ⊢
          rw [maps, maps', seenAlike]
          cases t.mapSeenMasternodeBroadcast.contains (mnb.getHash net) with
          | true => exact looked.beside
          | false =>
            have entered : Beside
                { s' with mapSeenMasternodeBroadcast :=
                    s.mapSeenMasternodeBroadcast.insert (mnb.getHash net) mnb }
                { t' with mapSeenMasternodeBroadcast :=
                    t.mapSeenMasternodeBroadcast.insert (mnb.getHash net) mnb } :=
              ⟨looked.beside.list, h.broadcasts.insert _ _ _, looked.beside.pings⟩
            exact (entered.handleBroadcast mnb).beside
  | mnp env mnp =>
    have seenAlike : s.mapSeenMasternodePing.contains (net.pingHash mnp.vin mnp.sigTime) =
        t.mapSeenMasternodePing.contains (net.pingHash mnp.vin mnp.sigTime) :=
      Bool.eq_iff_iff.mpr ⟨seen, h.pings _⟩
    simp only [receiveStep, CMasternodeMan.processPing, seenAlike]
    cases t.mapSeenMasternodePing.contains (net.pingHash mnp.vin mnp.sigTime) with
    | true => exact h
    | false =>
      have entered : Beside
          { s with mapSeenMasternodePing :=
              s.mapSeenMasternodePing.insert (net.pingHash mnp.vin mnp.sigTime) mnp }
          { t with mapSeenMasternodePing :=
              t.mapSeenMasternodePing.insert (net.pingHash mnp.vin mnp.sigTime) mnp } :=
        ⟨h.list, h.broadcasts, h.pings.insert _ _ _⟩
      exact (entered.checkAndUpdate mnp true).beside

theorem checkAndUpdate_of_aside {mnb : CMasternodeBroadcast}
    (aside : mnb.fieldsPass net env = true → ∀ pmn, s.find mnb.vin = some pmn →
      pmn.sigTime ≤ mnb.sigTime → pmn.isEnabled = true → mnb.updates env pmn = true →
        mnb.sigTime ≤ pmn.sigTime) : (mnb.checkAndUpdate net env s).1 = s := by
  unfold CMasternodeBroadcast.checkAndUpdate
  cases pass : mnb.fieldsPass net env with
  | false => rfl
  | true =>
    cases found : s.find mnb.vin with
    | none => rfl
    | some pmn =>
      by_cases newer : pmn.sigTime > mnb.sigTime
      · simp only [Bool.not_true, Bool.false_eq_true, if_false, if_pos newer]
      simp only [Bool.not_true, Bool.false_eq_true, if_false, if_neg newer]
      cases enabled : pmn.isEnabled with
      | false => rfl
      | true =>
        cases updates : mnb.updates env pmn with
        | false => rfl
        | true =>
          have older := aside pass pmn found (by omega) enabled updates
          unfold updateFromNewBroadcast
          simp only [Bool.not_true, Bool.false_eq_true, if_false, if_true, if_pos older]

/-- A broadcast that stands aside and is refused is forgotten at most. -/
theorem handleBroadcast_of_aside {mnb : CMasternodeBroadcast}
    (refused : (s.handleBroadcast net env mnb).2 = false)
    (aside : mnb.fieldsPass net env = true → ∀ pmn, s.find mnb.vin = some pmn →
      pmn.sigTime ≤ mnb.sigTime →
        (pmn.isEnabled = true → mnb.updates env pmn = true → mnb.sigTime ≤ pmn.sigTime) ∧
          (pmn.isEnabled = false →
            env.isVinAssociatedWithPubkey net mnb.vin mnb.pubKeyCollateralAddress = false)) :
    (s.handleBroadcast net env mnb).1 = s ∨ (s.handleBroadcast net env mnb).1 =
      { s with mapSeenMasternodeBroadcast :=
          s.mapSeenMasternodeBroadcast.erase (mnb.getHash net) } := by
  have same : (mnb.checkAndUpdate net env s).1 = s :=
    checkAndUpdate_of_aside fun pass pmn found older => (aside pass pmn found older).1
  have passed := @CMasternodeBroadcast.checkAndUpdate_snd mnb net env s
  unfold CMasternodeMan.handleBroadcast at refused ⊢
  cases result : mnb.checkAndUpdate net env s with
  | mk s' ok =>
    rw [result] at same passed refused
    obtain rfl : s' = s := same
    cases ok with
    | false => exact Or.inl rfl
    | true =>
      obtain ⟨pass, older⟩ := passed.mp rfl
      cases associated : env.isVinAssociatedWithPubkey net mnb.vin mnb.pubKeyCollateralAddress with
      | false => exact Or.inl rfl
      | true =>
        have added : ∀ t : CMasternodeMan, (mnb.addChecked net env t).2 = false →
            (mnb.addChecked net env t).1 = t ∨ (mnb.addChecked net env t).1 =
              { t with mapSeenMasternodeBroadcast :=
                  t.mapSeenMasternodeBroadcast.erase (mnb.getHash net) } := by
          intro t refused
          unfold CMasternodeBroadcast.addChecked at refused ⊢
          cases verdict : mnb.checkInputs env with
          | later => exact Or.inr rfl
          | refused => exact Or.inl rfl
          | good =>
            rw [verdict] at refused
            cases refused
        simp only [associated, Bool.not_true, Bool.false_eq_true, if_false] at refused ⊢
        obtain ⟨-, same⟩ | ⟨-, ⟨-, same⟩ | ⟨pmn, found, disabled, -⟩⟩ :=
          mnb.checkInputsAndAdd_cases net env s'
        · rw [same] at refused
          cases refused
        · rw [same] at refused ⊢
          exact added s' refused
        · rw [(aside pass pmn found (older pmn found)).2 disabled] at associated
          cases associated

/-- A rejected message that stands aside leaves the lists alike. -/
theorem Beside.rejected (h : Beside s t) {m : MasternodeMessage} (rejected : Rejected net s m)
    (aside : StandsAside net s m) : Beside (receiveStep net s m) t := by
  cases m with
  | mnb env mnb =>
    obtain ⟨checked, aside⟩ := aside
    have maps := @maps_checkAddress env s mnb
    have looked : Beside (s.checkAddress env mnb).1 s := by
      refine ⟨?_, maps.1 ▸ AssocMap.Covers.refl _, maps.2 ▸ AssocMap.Covers.refl _⟩
      unfold CMasternodeMan.checkAddress
      cases found : s.findAddr mnb.addr with
      | none => rfl
      | some pmn =>
        by_cases own : pmn.vin = mnb.vin
        · simp only [if_pos own]
        simp only [if_neg own]
        apply map_change_of_found
        intro mn found'
        obtain rfl : pmn = mn := Option.some.inj (found.symm.trans found')
        exact ListedMasternode.forgetTime_check_of_state (checked pmn found own)
    have beside : Beside (s.checkAddress env mnb).1 t :=
      ⟨looked.list.trans h.list, maps.1 ▸ h.broadcasts, maps.2 ▸ h.pings⟩
    rcases processBroadcast_cases env mnb with same | ⟨notFound, absent, same⟩
    · rw [receiveStep, same]
      exact beside
    have entry : Beside (entered net env s mnb) (s.checkAddress env mnb).1 :=
      ⟨rfl, (AssocMap.Covers.refl _).insert_left _ _, AssocMap.Covers.refl _⟩
    have refused : ((entered net env s mnb).handleBroadcast net env mnb).2 = false := by
      rw [(entry.handleBroadcast mnb).answer]
      rcases rejected with found | refused
      · rw [notFound] at found
        cases found
      · exact refused
    have asideThere : mnb.fieldsPass net env = true → ∀ pmn,
        (entered net env s mnb).find mnb.vin = some pmn → pmn.sigTime ≤ mnb.sigTime →
          (pmn.isEnabled = true → mnb.updates env pmn = true → mnb.sigTime ≤ pmn.sigTime) ∧
            (pmn.isEnabled = false →
              env.isVinAssociatedWithPubkey net mnb.vin mnb.pubKeyCollateralAddress = false) := by
      intro pass pmn found older
      rcases looked.find_cases mnb.vin with ⟨none, -⟩ | ⟨mn, time, there, here⟩
      · cases found.symm.trans none
      · obtain rfl := Option.some.inj (found.symm.trans there)
        exact aside notFound pass mn here older
    rw [receiveStep, same]
    rcases handleBroadcast_of_aside refused asideThere with kept | forgotten
    · rw [kept]
      exact ⟨beside.list, beside.broadcasts.insert_left _ _, beside.pings⟩
    rw [forgotten]
    refine ⟨beside.list, ?_, beside.pings⟩
    apply (beside.broadcasts.insert_left _ _).erase_left
    cases there : t.mapSeenMasternodeBroadcast.contains (mnb.getHash net) with
    | false => rfl
    | true =>
      rw [beside.broadcasts _ there] at absent
      cases absent
  | mnp env mnp =>
    simp only [receiveStep, CMasternodeMan.processPing]
    cases seen : s.mapSeenMasternodePing.contains (net.pingHash mnp.vin mnp.sigTime) with
    | true => exact h
    | false =>
      have same : ∀ e : CMasternodeMan, e.vMasternodes = s.vMasternodes →
          (mnp.checkAndUpdate net env e true).1 = e := by
        intro e list
        unfold CMasternodePing.checkAndUpdate
        cases timely : mnp.isTimely env with
        | false => rfl
        | true =>
          have found : e.find mnp.vin = s.find mnp.vin := by
            unfold CMasternodeMan.find
            rw [list]
          rw [found]
          cases here : s.find mnp.vin with
          | none => rfl
          | some pmn =>
            simp only [Bool.not_true, Bool.false_eq_true, if_false, aside timely pmn here,
              Bool.not_false, if_true]
      let e : CMasternodeMan := { s with
        mapSeenMasternodePing :=
          s.mapSeenMasternodePing.insert (net.pingHash mnp.vin mnp.sigTime) mnp }
      have noted : Beside e t := ⟨h.list, h.broadcasts, h.pings.insert_left _ _⟩
      rw [same e rfl]
      exact noted

end Steps

/-- In a run in which rejected messages stand aside and no other is held up by them, the list is the
one of the run without them. -/
theorem run_without_rejected (net : MasternodeNet) (s : CMasternodeMan)
    (messages : List MasternodeMessage)
    (noTrace : AllSteps (bothStep net) (LeavesNoTrace net) (s, s) messages) :
    ∀ part, part <+: messages → listView (run (receiveStep net) s part) =
      listView (run (receiveStep net) s (dropRejected net s part)) := by
  intro part initial
  have beside := (noTrace.restrict initial).invariant
    (I := fun p : CMasternodeMan × CMasternodeMan => Beside p.1 p.2)
    (by
      rintro ⟨s, t⟩ m h ⟨aside, notHeld⟩
      unfold bothStep
      by_cases rejected : Rejected net s m
      · rw [if_pos rejected]
        exact h.rejected rejected (aside rejected)
      · rw [if_neg rejected]
        exact h.receive m (notHeld rejected))
    (Beside.refl s)
  rw [run_bothStep_fst, run_bothStep_snd] at beside
  exact beside.listView

/-! ## A forged broadcast in front of the genuine one -/

def sampleMessage (mnb : CMasternodeBroadcast) : MasternodeMessage :=
  .mnb (sampleMasternodeEnv [sampleCollateral 7 (sampleKey 1)] 2000) mnb

def forgedBroadcast (sigTime : Int) : CMasternodeBroadcast :=
  { sampleBroadcast ⟨7, 0⟩ (sampleService 4) 1001 {} with sigTime }

/-- A forged broadcast of another time is dropped without a trace. -/
theorem forged_broadcast_dropped :
    dropRejected sampleNet {} [sampleMessage (forgedBroadcast 999),
        sampleMessage (sampleBroadcast ⟨7, 0⟩ (sampleService 4) 1000 {})] =
      [sampleMessage (sampleBroadcast ⟨7, 0⟩ (sampleService 4) 1000 {})] ∧
    listView (run (receiveStep sampleNet) {} [sampleMessage (forgedBroadcast 999),
        sampleMessage (sampleBroadcast ⟨7, 0⟩ (sampleService 4) 1000 {})]) =
      listView (run (receiveStep sampleNet) {} (dropRejected sampleNet {}
        [sampleMessage (forgedBroadcast 999),
          sampleMessage (sampleBroadcast ⟨7, 0⟩ (sampleService 4) 1000 {})])) := by
  have refused : Rejected sampleNet {} (sampleMessage (forgedBroadcast 999)) := by
    decide +kernel
  have good : ¬ Rejected sampleNet (receiveStep sampleNet {} (sampleMessage (forgedBroadcast 999)))
      (sampleMessage (sampleBroadcast ⟨7, 0⟩ (sampleService 4) 1000 {})) := by
    decide +kernel
  have notSeen : isSeen sampleNet (receiveStep sampleNet {} (sampleMessage (forgedBroadcast 999)))
      (sampleMessage (sampleBroadcast ⟨7, 0⟩ (sampleService 4) 1000 {})) = false := by
    decide +kernel
  refine ⟨by rw [dropRejected, if_pos refused, dropRejected, if_neg good, dropRejected], ?_⟩
  have aside : StandsAside sampleNet {} (sampleMessage (forgedBroadcast 999)) := by
    refine ⟨?_, ?_⟩
    · rintro pmn ⟨⟩
    · rintro - - pmn ⟨⟩
  refine run_without_rejected sampleNet {} [_, _] ⟨⟨fun _ => aside, fun passes => absurd refused
    passes⟩, ⟨fun rejected => absurd rejected good, fun _ seen => ?_⟩, trivial⟩ _ List.prefix_rfl
  exact absurd (seen.symm.trans notSeen) (by decide)

/-- The forged broadcast takes the place of the genuine one in the seen map. -/
theorem forged_broadcast_blocks :
    ¬ ∀ (net : MasternodeNet) (s : CMasternodeMan) (messages part : List MasternodeMessage),
      part <+: messages → listView (run (receiveStep net) s part) =
        listView (run (receiveStep net) s (dropRejected net s part)) := by
  intro claim
  have equal := claim sampleNet {}
    [sampleMessage (forgedBroadcast 1000),
      sampleMessage (sampleBroadcast ⟨7, 0⟩ (sampleService 4) 1000 {})]
    _ List.prefix_rfl
  revert equal
  decide +kernel

end Esbcoin
