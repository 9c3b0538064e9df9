import Esbcoin.Masternode.Announcement

/-!
# Outpoints and addresses of the list

No two masternodes of the list ever have one outpoint: `CMasternodeMan::Add` looks for it. An
address is looked for when a broadcast comes in, but only the first masternode with it is asked, and
what `Check` or a ping enables again is not asked at all.
-/

namespace Esbcoin

open KeyedList StepRun ListedMasternode List

namespace ListedMasternode

variable {env : MasternodeEnv} {forceCheck : Bool} {mn : ListedMasternode}

@[simp] theorem check_addr : (mn.check env forceCheck).addr = mn.addr := by
  unfold check
  split
  · rfl
  · split <;> rfl

/-- A check that enables a masternode would do so if forced. -/
theorem check_forced (disabled : mn.isEnabled = false)
    (enabled : (mn.check env forceCheck).isEnabled = true) :
    (mn.check env true).isEnabled = true := by
  unfold check at enabled ⊢
  by_cases shutdown : env.shutdownRequested = true
  · rw [if_pos shutdown, disabled] at enabled
    cases enabled
  rw [if_neg shutdown] at enabled ⊢
  split at enabled
  · rw [disabled] at enabled
    cases enabled
  · simpa using enabled

end ListedMasternode

/-! ## What holds of the list -/

section Lists

variable {l : List ListedMasternode} {addr : CService} {o : COutPoint}

/-- No two masternodes of the list have one outpoint. -/
def DistinctOutpoints (l : List ListedMasternode) : Prop :=
  (l.map outpoint).Nodup

/-- No two enabled masternodes have one address. -/
def DistinctAddresses (l : List ListedMasternode) : Prop :=
  ∀ mn ∈ l, ∀ other ∈ l, mn.isEnabled = true → other.isEnabled = true → mn.addr = other.addr →
    mn = other

/-- Nobody but the masternode of an outpoint is enabled with the address. -/
def FreeFor (l : List ListedMasternode) (addr : CService) (o : COutPoint) : Prop :=
  ∀ mn ∈ l, mn.isEnabled = true → mn.addr = addr → mn.outpoint = o

/-- No other masternode has the address of this one. -/
def Alone (l : List ListedMasternode) (mn : ListedMasternode) : Prop :=
  ∀ other ∈ l, other.addr = mn.addr → other.outpoint = mn.outpoint

theorem eq_of_outpoint (distinct : DistinctOutpoints l) {mn other : ListedMasternode}
    (member : mn ∈ l) (member' : other ∈ l) (equal : mn.outpoint = other.outpoint) :
    mn = other := by
  have found := (mem_iff_find distinct mn).mp member
  rw [equal, (mem_iff_find distinct other).mp member'] at found
  exact (Option.some.inj found).symm

variable {f : ListedMasternode → ListedMasternode}

theorem DistinctOutpoints.change (distinct : DistinctOutpoints l)
    (keeps : ∀ mn, (f mn).outpoint = mn.outpoint) :
    DistinctOutpoints (KeyedList.change outpoint o f l) := by
  unfold DistinctOutpoints
  rw [map_change keeps]
  exact distinct

/-- A change keeps the addresses distinct if what it leaves enabled was so with that address, or if
the address is free. -/
theorem DistinctAddresses.change (distinct : DistinctOutpoints l) (addresses : DistinctAddresses l)
    (fits : ∀ mn ∈ l, mn.outpoint = o → (f mn).isEnabled = true →
      (mn.isEnabled = true ∧ (f mn).addr = mn.addr) ∨ FreeFor l (f mn).addr o) :
    DistinctAddresses (KeyedList.change outpoint o f l) := by
  have apart : ∀ mn ∈ l, mn.outpoint = o → (f mn).isEnabled = true → ∀ other ∈ l,
      other.isEnabled = true → other.addr = (f mn).addr → other.outpoint = o := by
    intro mn member here enabled other member' enabled' same
    rcases fits mn member here enabled with ⟨before, kept⟩ | free
    · rw [addresses other member' mn member enabled' before (same.trans kept), here]
    · exact free other member' enabled' same
  intro mn member other member' enabled enabled' same
  rcases mem_change distinct member with ⟨a, found, rfl⟩ | ⟨inside, elsewhere⟩
  · have inList := mem_of_find?_eq_some found
    have here : a.outpoint = o := key_of_find found
    rcases mem_change distinct member' with ⟨b, found', rfl⟩ | ⟨inside', elsewhere'⟩
    · rw [Option.some.inj (found.symm.trans found')]
    · exact absurd (apart a inList here enabled other inside' enabled' same.symm) elsewhere'
  rcases mem_change distinct member' with ⟨b, found', rfl⟩ | ⟨inside', elsewhere'⟩
  · have inList := mem_of_find?_eq_some found'
    have here : b.outpoint = o := key_of_find found'
    exact absurd (apart b inList here enabled' mn inside enabled same) elsewhere
  · exact addresses mn inside other inside' enabled enabled' same

theorem FreeFor.change {o' : COutPoint} (distinct : DistinctOutpoints l) (free : FreeFor l addr o')
    (keeps : ∀ mn, (f mn).outpoint = mn.outpoint)
    (fits : ∀ mn ∈ l, mn.outpoint = o → (f mn).isEnabled = true → (f mn).addr = addr →
      o = o' ∨ (mn.isEnabled = true ∧ mn.addr = addr)) :
    FreeFor (KeyedList.change outpoint o f l) addr o' := by
  intro mn member enabled same
  rcases mem_change distinct member with ⟨a, found, rfl⟩ | ⟨inside, -⟩
  · have inList := mem_of_find?_eq_some found
    have here : a.outpoint = o := key_of_find found
    rw [keeps, here]
    rcases fits a inList here enabled same with own | ⟨before, same⟩
    · exact own
    · rw [← here]
      exact free a inList before same
  · exact free mn inside enabled same

/-- A masternode with this address and outpoint may be added. -/
structure Admits (addr : CService) (o : COutPoint) (l : List ListedMasternode) : Prop where
  distinct : DistinctOutpoints l
  addresses : DistinctAddresses l
  free : FreeFor l addr o

/-- The masternode of the outpoint, if any, has the address. -/
structure Taken (addr : CService) (o : COutPoint) (l : List ListedMasternode) : Prop extends
    Admits addr o l where
  own : ∀ mn ∈ l, mn.outpoint = o → mn.addr = addr

/-- A change that leaves the address alone, and enables again only the masternode of the outpoint or
one that is alone with another address. -/
theorem Taken.change {o' : COutPoint} (taken : Taken addr o l)
    (keeps : ∀ mn, (f mn).outpoint = mn.outpoint) (keepsAddr : ∀ mn, (f mn).addr = mn.addr)
    (fits : ∀ mn ∈ l, mn.outpoint = o' → (f mn).isEnabled = true →
      mn.isEnabled = true ∨ o' = o ∨ (Alone l mn ∧ mn.addr ≠ addr)) :
    Taken addr o (KeyedList.change outpoint o' f l) where
  distinct := taken.distinct.change keeps
  addresses := by
    apply taken.addresses.change taken.distinct
    intro mn member here enabled
    rcases fits mn member here enabled with before | own | ⟨alone, -⟩
    · exact Or.inl ⟨before, keepsAddr mn⟩
    · subst own
      refine Or.inr ?_
      rw [keepsAddr, taken.own mn member here]
      exact taken.free
    · refine Or.inr ?_
      rw [keepsAddr]
      exact fun other member' _ same => (alone other member' same).trans here
  free := by
    apply taken.free.change taken.distinct keeps
    intro mn member here enabled same
    rw [keepsAddr] at same
    rcases fits mn member here enabled with before | own | ⟨-, other⟩
    · exact Or.inr ⟨before, same⟩
    · exact Or.inl own
    · exact absurd same other
  own := by
    intro mn member here
    rcases mem_change taken.distinct member with ⟨a, found, rfl⟩ | ⟨inside, -⟩
    · rw [keepsAddr]
      rw [keeps] at here
      exact taken.own a (mem_of_find?_eq_some found) here
    · exact taken.own mn inside here

theorem Admits.takeOver {mnb : CMasternodeBroadcast} (admits : Admits mnb.addr o l) :
    Taken mnb.addr o (KeyedList.change outpoint o
      (takeOver mnb) l) where
  distinct := admits.distinct.change fun _ => rfl
  addresses := admits.addresses.change admits.distinct fun _ _ _ _ => Or.inr admits.free
  free := admits.free.change admits.distinct (fun _ => rfl) fun _ _ _ _ _ => Or.inl rfl
  own := by
    intro mn member here
    rcases mem_change admits.distinct member with ⟨a, -, rfl⟩ | ⟨-, elsewhere⟩
    · rfl
    · exact absurd here elsewhere

theorem Admits.of_subset {l' : List ListedMasternode} (admits : Admits addr o l)
    (sub : l'.Sublist l) : Admits addr o l' where
  distinct := (sub.map _).nodup admits.distinct
  addresses mn member other member' :=
    admits.addresses mn (sub.subset member) other (sub.subset member')
  free mn member := admits.free mn (sub.subset member)

end Lists

/-! ## What a step does to the list -/

namespace CMasternodePing

variable {net : MasternodeNet} {env : MasternodeEnv} {s : CMasternodeMan} {ping : CMasternodePing}

theorem checkAndUpdate_cases (fRequireEnabled : Bool) :
    (ping.checkAndUpdate net env s fRequireEnabled).1 = s ∨
      ∃ pmn, s.find ping.vin = some pmn ∧ ping.passesFor net env fRequireEnabled pmn = true ∧
        (ping.checkAndUpdate net env s fRequireEnabled).1.vMasternodes =
          KeyedList.change outpoint ping.vin.prevout (refresh env ping)
            s.vMasternodes := by
  unfold checkAndUpdate
  split
  · exact Or.inl rfl
  cases found : s.find ping.vin with
  | none => exact Or.inl rfl
  | some pmn =>
    cases passes : ping.passesFor net env fRequireEnabled pmn with
    | false => exact Or.inl (by simp [passes])
    | true =>
      refine Or.inr ⟨pmn, rfl, passes, ?_⟩
      simp only [passes, Bool.not_true, Bool.false_eq_true, if_false]
      exact vMasternodes_update pmn

/-- A ping of the message 'mnp' is for an enabled masternode. -/
theorem isEnabled_of_passesFor {pmn : ListedMasternode}
    (passes : ping.passesFor net env true pmn = true) : pmn.isEnabled = true := by
  unfold passesFor at passes
  simp only [Bool.true_and, Bool.not_not, Bool.and_eq_true] at passes
  exact passes.1.1.1.2

end CMasternodePing

/-- The ways in which a call changes the list; every one keeps the outpoints distinct. -/
inductive Edited : List ListedMasternode → List ListedMasternode → Prop where
  | refl (l : List ListedMasternode) : Edited l l
  | change {l l' : List ListedMasternode} {κ : Type} [DecidableEq κ]
      (key : ListedMasternode → κ) (k : κ) (f : ListedMasternode → ListedMasternode)
      (keeps : ∀ mn, (f mn).outpoint = mn.outpoint) :
      Edited l l' → Edited l (KeyedList.change key k f l')
  | check {l l' : List ListedMasternode} (env : MasternodeEnv) :
      Edited l l' → Edited l (l'.map (ListedMasternode.check env false))
  | sublist {l l' l'' : List ListedMasternode} (sub : l''.Sublist l') : Edited l l' → Edited l l''
  | add {l l' : List ListedMasternode} (mn : ListedMasternode)
      (absent : ∀ other ∈ l', other.outpoint ≠ mn.outpoint) : Edited l l' → Edited l (l' ++ [mn])

theorem Edited.distinct {l l' : List ListedMasternode} (edited : Edited l l')
    (distinct : DistinctOutpoints l) : DistinctOutpoints l' := by
  induction edited with
  | refl => exact distinct
  | change key k f keeps _ ih =>
    unfold DistinctOutpoints
    rw [map_change keeps]
    exact ih
  | @check l' env _ ih =>
    have keys : (l'.map (ListedMasternode.check env false)).map outpoint =
        l'.map outpoint := by
      rw [map_map]
      exact map_congr_left fun mn _ => check_outpoint
    unfold DistinctOutpoints
    rw [keys]
    exact ih
  | sublist sub _ ih => exact (sub.map _).nodup ih
  | add mn absent _ ih =>
    unfold DistinctOutpoints
    rw [map_append, map_singleton, nodup_append]
    refine ⟨ih, nodup_singleton _, ?_⟩
    intro o member o' last
    obtain ⟨other, inside, rfl⟩ := mem_map.mp member
    rw [mem_singleton.mp last]
    exact absent other inside

/-- A ping attached to a broadcast is not that of another masternode with the broadcast's address,
nor of another one that is not enabled and shares its address. -/
def PingFits (mnb : CMasternodeBroadcast) (l : List ListedMasternode) : Prop :=
  ∀ mn ∈ l, mn.outpoint = mnb.lastPing.vin.prevout → mn.outpoint ≠ mnb.vin.prevout →
    mn.addr ≠ mnb.addr ∧ (mn.isEnabled = false → Alone l mn)

theorem PingFits.takeOver {mnb : CMasternodeBroadcast} {l : List ListedMasternode}
    (fits : PingFits mnb l) (distinct : DistinctOutpoints l) :
    PingFits mnb (KeyedList.change outpoint mnb.vin.prevout
      (takeOver mnb) l) := by
  intro mn member here other
  rcases mem_change distinct member with ⟨a, found, rfl⟩ | ⟨inside, -⟩
  · exact absurd (key_of_find found) other
  obtain ⟨differs, alone⟩ := fits mn inside here other
  refine ⟨differs, fun disabled => ?_⟩
  intro mn' member' same
  rcases mem_change distinct member' with ⟨a, -, rfl⟩ | ⟨inside', -⟩
  · exact absurd same.symm differs
  · exact alone disabled mn' inside' same

namespace CMasternodeBroadcast

variable {net : MasternodeNet} {env : MasternodeEnv} {s : CMasternodeMan}
  {mnb : CMasternodeBroadcast}

/-- The ping of a broadcast is taken over. -/
theorem taken_takeLastPing (taken : Taken mnb.addr mnb.vin.prevout s.vMasternodes)
    (fits : PingFits mnb s.vMasternodes) :
    Taken mnb.addr mnb.vin.prevout (takeLastPing net env s mnb).vMasternodes := by
  have ends : ∀ (t : CMasternodeMan) (fresh : Bool), Taken mnb.addr mnb.vin.prevout t.vMasternodes →
      Taken mnb.addr mnb.vin.prevout (if fresh = true then
        KeyedList.change outpoint mnb.vin.prevout
          (fun mn => { mn with lastPing := mnb.lastPing }) t.vMasternodes
        else t.vMasternodes) := by
    intro t fresh taken
    cases fresh with
    | false => exact taken
    | true => exact taken.change (fun _ => rfl) (fun _ => rfl) fun _ _ _ => Or.inl
  have pinged : Taken mnb.addr mnb.vin.prevout
      (mnb.lastPing.checkAndUpdate net env s false).1.vMasternodes := by
    rcases CMasternodePing.checkAndUpdate_cases false with same | ⟨pmn, -, -, list⟩
    · rw [same]
      exact taken
    rw [list]
    apply taken.change
    · intro mn
      exact check_outpoint
    · intro mn
      exact ListedMasternode.check_addr
    intro mn member here _
    by_cases own : mn.outpoint = mnb.vin.prevout
    · exact Or.inr (Or.inl (here.symm.trans own))
    obtain ⟨other, alone⟩ := fits mn member here own
    cases enabled : mn.isEnabled with
    | true => exact Or.inl rfl
    | false => exact Or.inr (Or.inr ⟨alone enabled, other⟩)
  unfold takeLastPing
  cases default : mnb.lastPing.isDefault with
  | true =>
    have done := ends s true taken
    simpa [CMasternodeMan.change] using done
  | false =>
    have done := ends _ (mnb.lastPing.checkAndUpdate net env s false).2 pinged
    cases result : mnb.lastPing.checkAndUpdate net env s false with
    | mk t fresh =>
      rw [result] at done
      cases fresh with
      | false => simpa using done
      | true => simpa [CMasternodeMan.change] using done

theorem updateFromNewBroadcast_cases (admits : Admits mnb.addr mnb.vin.prevout s.vMasternodes)
    (fits : PingFits mnb s.vMasternodes) (pmn : ListedMasternode) :
    updateFromNewBroadcast net env s mnb pmn = (s, false) ∨
      ∃ t, updateFromNewBroadcast net env s mnb pmn = (t, true) ∧
        Taken mnb.addr mnb.vin.prevout t.vMasternodes := by
  unfold updateFromNewBroadcast
  by_cases older : mnb.sigTime ≤ pmn.sigTime
  · exact Or.inl (if_pos older)
  · rw [if_neg older]
    exact Or.inr ⟨_, rfl, taken_takeLastPing admits.takeOver (fits.takeOver admits.distinct)⟩

/-- `CheckAndUpdate` of a broadcast leaves its address free. -/
theorem admits_checkAndUpdate (admits : Admits mnb.addr mnb.vin.prevout s.vMasternodes)
    (fits : PingFits mnb s.vMasternodes) :
    Admits mnb.addr mnb.vin.prevout (mnb.checkAndUpdate net env s).1.vMasternodes := by
  unfold checkAndUpdate
  split
  · exact admits
  split
  · exact admits
  split
  · exact admits
  split
  · exact admits
  rename_i pmn _ _ _
  split
  · rcases updateFromNewBroadcast_cases admits fits pmn with same | ⟨t, updated, taken⟩
    · rw [same]
      exact admits
    rw [updated]
    apply Taken.toAdmits
    apply taken.change
    · intro mn
      exact check_outpoint
    · intro mn
      exact ListedMasternode.check_addr
    · exact fun _ _ _ _ => Or.inr (Or.inl rfl)
  · exact admits

theorem addr_ofBroadcast : (ofBroadcast env mnb).addr = mnb.addr := by
  unfold ofBroadcast
  split <;> rfl

theorem outpoint_ofBroadcast :
    (ofBroadcast env mnb).outpoint = mnb.vin.prevout := by
  unfold ofBroadcast
  split <;> rfl

/-- `CheckInputsAndAdd` puts a masternode at the free address, or none. -/
theorem admits_add (admits : Admits mnb.addr mnb.vin.prevout s.vMasternodes) :
    Admits mnb.addr mnb.vin.prevout
      (s.add (ofBroadcast env mnb)).vMasternodes := by
  have vin : (ofBroadcast env mnb).vin.prevout = mnb.vin.prevout :=
    outpoint_ofBroadcast
  unfold CMasternodeMan.add
  split
  · exact admits
  cases found : s.find (ofBroadcast env mnb).vin with
  | some pmn => exact admits
  | none =>
    have absent : ∀ mn ∈ s.vMasternodes, mn.outpoint ≠ mnb.vin.prevout := by
      intro mn member equal
      have other := List.find?_eq_none.mp found mn member
      rw [vin] at other
      simp only [equal, decide_true, not_true] at other
    have free : ∀ mn ∈ s.vMasternodes, mn.isEnabled = true → mn.addr ≠ mnb.addr := by
      intro mn member enabled same
      exact absent mn member (admits.free mn member enabled same)
    refine ⟨?_, ?_, ?_⟩
    · unfold DistinctOutpoints
      rw [Option.isSome_none, if_neg Bool.false_ne_true, map_append, nodup_append]
      refine ⟨admits.distinct, nodup_singleton _, ?_⟩
      intro o member o' last
      obtain ⟨mn, inside, rfl⟩ := mem_map.mp member
      rw [map_singleton, mem_singleton, outpoint_ofBroadcast] at last
      rw [last]
      exact absent mn inside
    · intro mn member other member' enabled enabled' same
      rcases mem_append.mp member with inside | last
      · rcases mem_append.mp member' with inside' | last'
        · exact admits.addresses mn inside other inside' enabled enabled' same
        · rw [mem_singleton.mp last', addr_ofBroadcast] at same
          exact absurd same (free mn inside enabled)
      rcases mem_append.mp member' with inside' | last'
      · rw [mem_singleton.mp last, addr_ofBroadcast] at same
        exact absurd same.symm (free other inside' enabled')
      · rw [mem_singleton.mp last, mem_singleton.mp last']
    · intro mn member enabled same
      rcases mem_append.mp member with inside | last
      · exact admits.free mn inside enabled same
      · rw [mem_singleton.mp last, outpoint_ofBroadcast]

theorem admits_checkInputsAndAdd (admits : Admits mnb.addr mnb.vin.prevout s.vMasternodes) :
    Admits mnb.addr mnb.vin.prevout (mnb.checkInputsAndAdd net env s).1.vMasternodes := by
  have added : ∀ t : CMasternodeMan, Admits mnb.addr mnb.vin.prevout t.vMasternodes →
      Admits mnb.addr mnb.vin.prevout (mnb.addChecked net env t).1.vMasternodes := by
    intro t admits
    unfold addChecked
    cases mnb.checkInputs env with
    | later => exact admits
    | refused => exact admits
    | good => exact admits_add admits
  obtain ⟨-, same⟩ | ⟨-, ⟨-, same⟩ | ⟨pmn, -, -, same⟩⟩ := mnb.checkInputsAndAdd_cases net env s
  · rw [same]
    exact admits
  · rw [same]
    exact added _ admits
  · rw [same]
    exact added _ (admits.of_subset eraseP_sublist)

end CMasternodeBroadcast

/-! ## When the addresses stay distinct -/

/-- `Check` enables again only masternodes whose address nobody else has. -/
def StaysOut (env : MasternodeEnv) (l : List ListedMasternode) : Prop :=
  ∀ mn ∈ l, mn.isEnabled = false → (mn.check env true).isEnabled = true → Alone l mn

/-- Who else is enabled at the address is the first that has it. -/
def FirstIsEnabled (mnb : CMasternodeBroadcast) (s : CMasternodeMan) : Prop :=
  ∀ mn ∈ s.vMasternodes, mn.isEnabled = true → mn.addr = mnb.addr →
    mn.outpoint ≠ mnb.vin.prevout → s.findAddr mnb.addr = some mn

theorem check_enabled_cases {env : MasternodeEnv} {l : List ListedMasternode}
    (staysOut : StaysOut env l) {forceCheck : Bool} {mn : ListedMasternode} (member : mn ∈ l)
    (enabled : (mn.check env forceCheck).isEnabled = true) : mn.isEnabled = true ∨ Alone l mn := by
  cases before : mn.isEnabled with
  | true => exact Or.inl rfl
  | false => exact Or.inr (staysOut mn member before (ListedMasternode.check_forced before enabled))

namespace CMasternodeMan

variable {net : MasternodeNet} {env : MasternodeEnv} {s : CMasternodeMan}

section

variable (distinct : DistinctOutpoints s.vMasternodes)
include distinct

theorem addresses_checkAll (addresses : DistinctAddresses s.vMasternodes)
    (staysOut : StaysOut env s.vMasternodes) :
    DistinctAddresses (s.checkAll env).vMasternodes := by
  intro mn member other member' enabled enabled' same
  obtain ⟨a, inside, rfl⟩ := mem_map.mp member
  obtain ⟨b, inside', rfl⟩ := mem_map.mp member'
  rw [ListedMasternode.check_addr, ListedMasternode.check_addr] at same
  have equal : a = b := by
    rcases check_enabled_cases staysOut inside enabled with before | alone
    · rcases check_enabled_cases staysOut inside' enabled' with before' | alone
      · exact addresses a inside b inside' before before' same
      · exact eq_of_outpoint distinct inside inside' (alone a inside same)
    · exact eq_of_outpoint distinct inside inside' (alone b inside' same.symm).symm
  rw [equal]

/-- The look for the address is a check of the first masternode that has it. -/
theorem checkAddress_cases (mnb : CMasternodeBroadcast) :
    ((s.checkAddress env mnb = (s, false)) ∧
        (∀ pmn, s.findAddr mnb.addr = some pmn → pmn.vin = mnb.vin)) ∨
      ∃ pmn, s.findAddr mnb.addr = some pmn ∧ pmn.vin ≠ mnb.vin ∧
        (s.checkAddress env mnb).1.vMasternodes = KeyedList.change outpoint
          pmn.outpoint (ListedMasternode.check env true) s.vMasternodes ∧
        (s.checkAddress env mnb).2 = (pmn.check env true).isEnabled := by
  unfold checkAddress
  cases found : s.findAddr mnb.addr with
  | none => exact Or.inl ⟨rfl, fun _ absent => by cases absent⟩
  | some pmn =>
    by_cases same : pmn.vin = mnb.vin
    · refine Or.inl ⟨if_pos same, ?_⟩
      rintro _ ⟨⟩
      exact same
    · refine Or.inr ⟨pmn, rfl, same, ?_⟩
      simp only [if_neg same]
      exact ⟨change_of_find distinct found, trivial⟩

/-- Behind the look for the address, the address is free unless an enabled masternode was found. -/
theorem admits_checkAddress {mnb : CMasternodeBroadcast}
    (addresses : DistinctAddresses s.vMasternodes) (staysOut : StaysOut env s.vMasternodes)
    (first : FirstIsEnabled mnb s) (fits : PingFits mnb s.vMasternodes) :
    DistinctOutpoints (s.checkAddress env mnb).1.vMasternodes ∧
      DistinctAddresses (s.checkAddress env mnb).1.vMasternodes ∧
      ((s.checkAddress env mnb).2 = false →
        FreeFor (s.checkAddress env mnb).1.vMasternodes mnb.addr mnb.vin.prevout ∧
          PingFits mnb (s.checkAddress env mnb).1.vMasternodes) := by
  rcases @checkAddress_cases env s distinct mnb with
    ⟨same, own⟩ | ⟨pmn, found, other, list, verdict⟩
  · rw [same]
    refine ⟨distinct, addresses, fun _ => ⟨?_, fits⟩⟩
    intro mn member enabled sameAddr
    by_contra elsewhere
    have vin := own mn (first mn member enabled sameAddr elsewhere)
    exact elsewhere (congrArg CTxIn.prevout vin)
  rw [list, verdict]
  have inList : pmn ∈ s.vMasternodes := mem_of_find?_eq_some found
  have addr : pmn.addr = mnb.addr :=
    @key_of_find _ _ _ (fun mn : ListedMasternode => mn.addr) _ _ _ found
  have keeps : ∀ mn : ListedMasternode, (mn.check env true).outpoint = mn.outpoint :=
    fun mn => check_outpoint
  refine ⟨distinct.change keeps, ?_, ?_⟩
  · apply addresses.change distinct
    intro mn member here enabled
    rcases check_enabled_cases staysOut member enabled with before | alone
    · exact Or.inl ⟨before, ListedMasternode.check_addr⟩
    · refine Or.inr fun mn' member' _ sameAddr => ?_
      rw [ListedMasternode.check_addr] at sameAddr
      exact (alone mn' member' sameAddr).trans here
  intro disabled
  constructor
  · intro mn member enabled sameAddr
    rcases mem_change distinct member with ⟨a, found', rfl⟩ | ⟨inside, elsewhere⟩
    · rw [(mem_iff_find distinct pmn).mp inList] at found'
      obtain rfl := Option.some.inj found'
      rw [disabled] at enabled
      cases enabled
    by_contra notOwn
    have found' := first mn inside enabled sameAddr notOwn
    rw [found] at found'
    exact elsewhere (congrArg outpoint (Option.some.inj found').symm)
  intro mn member here elsewhere
  rcases mem_change distinct member with ⟨a, found', rfl⟩ | ⟨inside, -⟩
  · rw [(mem_iff_find distinct pmn).mp inList] at found'
    obtain rfl := Option.some.inj found'
    rw [keeps] at here elsewhere
    exact absurd addr (fits pmn inList here elsewhere).1
  obtain ⟨differs, alone⟩ := fits mn inside here elsewhere
  refine ⟨differs, fun disabled mn' member' sameAddr => ?_⟩
  rcases mem_change distinct member' with ⟨a, found', rfl⟩ | ⟨inside', -⟩
  · rw [keeps]
    rw [ListedMasternode.check_addr] at sameAddr
    exact alone disabled a (mem_of_find?_eq_some found') sameAddr
  · exact alone disabled mn' inside' sameAddr

end

end CMasternodeMan

/-! ## Runs -/

/-- What happens to the list of a node. -/
inductive ListAction where
  | mnb (env : MasternodeEnv) (mnb : CMasternodeBroadcast)
  | mnp (env : MasternodeEnv) (mnp : CMasternodePing)
  | check (env : MasternodeEnv)
  | checkAndRemove (env : MasternodeEnv) (forceExpiredRemoval : Bool)
  | remove (vin : CTxIn)

/-- A step of the list. -/
def listStep (net : MasternodeNet) (s : CMasternodeMan) : ListAction → CMasternodeMan
  | .mnb env mnb => (s.processBroadcast net env mnb).1
  | .mnp env mnp => (s.processPing net env mnp).1
  | .check env => s.checkAll env
  | .checkAndRemove env forceExpiredRemoval => s.checkAndRemove env forceExpiredRemoval
  | .remove vin => s.remove vin

/-- An action that comes by no masternode whose address is not looked at. -/
def KeepsAddresses (s : CMasternodeMan) : ListAction → Prop
  | .mnb env mnb =>
    StaysOut env s.vMasternodes ∧ FirstIsEnabled mnb s ∧ PingFits mnb s.vMasternodes
  | .mnp _ _ => True
  | .check env => StaysOut env s.vMasternodes
  | .checkAndRemove env _ => StaysOut env s.vMasternodes
  | .remove _ => True

section Step

variable {net : MasternodeNet} {s : CMasternodeMan}

theorem edited_checkAndUpdate {l : List ListedMasternode} (env : MasternodeEnv)
    (ping : CMasternodePing) (fRequireEnabled : Bool) (edited : Edited l s.vMasternodes) :
    Edited l (ping.checkAndUpdate net env s fRequireEnabled).1.vMasternodes := by
  rcases CMasternodePing.checkAndUpdate_cases fRequireEnabled with same | ⟨pmn, -, -, list⟩
  · rw [same]
    exact edited
  · rw [list]
    exact edited.change _ _ _ fun mn => check_outpoint

theorem edited_takeLastPing {l : List ListedMasternode} (env : MasternodeEnv)
    (mnb : CMasternodeBroadcast) (edited : Edited l s.vMasternodes) :
    Edited l (takeLastPing net env s mnb).vMasternodes := by
  have pinged : Edited l (mnb.lastPing.checkAndUpdate net env s false).1.vMasternodes :=
    edited_checkAndUpdate env mnb.lastPing false edited
  unfold takeLastPing
  cases default : mnb.lastPing.isDefault with
  | true => exact edited.change _ _ _ fun _ => rfl
  | false =>
    cases result : mnb.lastPing.checkAndUpdate net env s false with
    | mk t fresh =>
      rw [result] at pinged
      cases fresh with
      | false => simpa using pinged
      | true => exact pinged.change _ _ _ fun _ => rfl

theorem edited_broadcast {l : List ListedMasternode} (env : MasternodeEnv)
    (mnb : CMasternodeBroadcast) (edited : Edited l s.vMasternodes) :
    Edited l (mnb.checkAndUpdate net env s).1.vMasternodes := by
  have keeps : ∀ mn, (ListedMasternode.check env false mn).outpoint = mn.outpoint :=
    fun mn => check_outpoint
  unfold CMasternodeBroadcast.checkAndUpdate
  split
  · exact edited
  split
  · exact edited
  rename_i pmn _
  split
  · exact edited
  split
  · exact edited
  split
  · unfold updateFromNewBroadcast
    by_cases older : mnb.sigTime ≤ pmn.sigTime
    · rw [if_pos older]
      exact edited
    rw [if_neg older]
    have moved : Edited l (s.change mnb.vin (takeOver mnb)).vMasternodes :=
      edited.change _ _ _ fun _ => rfl
    exact (edited_takeLastPing env mnb moved).change _ _ _ keeps
  · exact edited

theorem edited_add {l : List ListedMasternode} (mn : ListedMasternode)
    (edited : Edited l s.vMasternodes) : Edited l (s.add mn).vMasternodes := by
  unfold CMasternodeMan.add
  split
  · exact edited
  cases found : s.find mn.vin with
  | some pmn => exact edited
  | none =>
    refine edited.add mn ?_
    intro other member equal
    have absent := List.find?_eq_none.mp found other member
    simp only [equal, decide_true, not_true] at absent

theorem edited_inputs {l : List ListedMasternode} (env : MasternodeEnv)
    (mnb : CMasternodeBroadcast) (edited : Edited l s.vMasternodes) :
    Edited l (mnb.checkInputsAndAdd net env s).1.vMasternodes := by
  have added : ∀ t : CMasternodeMan, Edited l t.vMasternodes →
      Edited l (mnb.addChecked net env t).1.vMasternodes := by
    intro t edited
    unfold CMasternodeBroadcast.addChecked
    cases mnb.checkInputs env with
    | later => exact edited
    | refused => exact edited
    | good => exact edited_add _ edited
  obtain ⟨-, same⟩ | ⟨-, ⟨-, same⟩ | ⟨pmn, -, -, same⟩⟩ := mnb.checkInputsAndAdd_cases net env s
  · rw [same]
    exact edited
  · rw [same]
    exact added _ edited
  · rw [same]
    exact added _ (edited.sublist eraseP_sublist)

theorem edited_checkAddress {l : List ListedMasternode} (env : MasternodeEnv)
    (mnb : CMasternodeBroadcast) (edited : Edited l s.vMasternodes) :
    Edited l (s.checkAddress env mnb).1.vMasternodes := by
  unfold CMasternodeMan.checkAddress
  split
  · exact edited
  · split
    · exact edited
    · exact edited.change _ _ _ fun mn => check_outpoint

/-- A ping is for an enabled masternode and leaves the addresses as they are. -/
theorem keeps_processPing (env : MasternodeEnv) (mnp : CMasternodePing)
    (distinct : DistinctOutpoints s.vMasternodes) :
    DistinctOutpoints (s.processPing net env mnp).1.vMasternodes ∧
      (DistinctAddresses s.vMasternodes →
        DistinctAddresses (s.processPing net env mnp).1.vMasternodes) := by
  simp only [CMasternodeMan.processPing]
  cases seen : s.mapSeenMasternodePing.contains (net.pingHash mnp.vin mnp.sigTime) with
  | true => exact ⟨distinct, id⟩
  | false =>
    rw [if_neg Bool.false_ne_true]
    have keeps : ∀ mn, (CMasternodePing.refresh env mnp mn).outpoint = mn.outpoint :=
      fun mn => check_outpoint
    have keepsAddr : ∀ mn, (CMasternodePing.refresh env mnp mn).addr = mn.addr :=
      fun mn => ListedMasternode.check_addr
    rcases CMasternodePing.checkAndUpdate_cases true with same | ⟨pmn, found, passes, list⟩
    · rw [same]
      exact ⟨distinct, id⟩
    rw [list]
    refine ⟨distinct.change keeps, fun addresses => addresses.change distinct ?_⟩
    intro mn member here _
    have known : mn = pmn := by
      have inList := mem_of_find?_eq_some found
      exact eq_of_outpoint distinct member inList (here.trans (key_of_find found).symm)
    rw [known]
    exact Or.inl ⟨CMasternodePing.isEnabled_of_passesFor passes, keepsAddr pmn⟩

/-- What 'mnb' does behind the seen map. -/
theorem handleBroadcast_cases (env : MasternodeEnv) (mnb : CMasternodeBroadcast) :
    (s.handleBroadcast net env mnb).1 = (mnb.checkAndUpdate net env s).1 ∨
      (s.handleBroadcast net env mnb).1 =
        (mnb.checkInputsAndAdd net env (mnb.checkAndUpdate net env s).1).1 := by
  unfold CMasternodeMan.handleBroadcast
  cases mnb.checkAndUpdate net env s with
  | mk t ok =>
    cases ok with
    | false => exact Or.inl rfl
    | true =>
      cases env.isVinAssociatedWithPubkey net mnb.vin mnb.pubKeyCollateralAddress with
      | false => exact Or.inl rfl
      | true => exact Or.inr rfl

/-- The state in which 'mnb' is handled: behind the look for the address, with the broadcast in the
seen map. -/
def entered (net : MasternodeNet) (env : MasternodeEnv) (s : CMasternodeMan)
    (mnb : CMasternodeBroadcast) : CMasternodeMan :=
  let s := (s.checkAddress env mnb).1
  { s with
    mapSeenMasternodeBroadcast := s.mapSeenMasternodeBroadcast.insert (mnb.getHash net) mnb }

theorem processBroadcast_cases (env : MasternodeEnv) (mnb : CMasternodeBroadcast) :
    (s.processBroadcast net env mnb).1 = (s.checkAddress env mnb).1 ∨
      ((s.checkAddress env mnb).2 = false ∧
        (s.checkAddress env mnb).1.mapSeenMasternodeBroadcast.contains (mnb.getHash net) = false ∧
        (s.processBroadcast net env mnb).1 =
          ((entered net env s mnb).handleBroadcast net env mnb).1) := by
  unfold CMasternodeMan.processBroadcast entered
  cases s.checkAddress env mnb with
  | mk t duplicate =>
    cases duplicate with
    | true => exact Or.inl rfl
    | false =>
      cases seen : t.mapSeenMasternodeBroadcast.contains (mnb.getHash net) with
      | true =>
        refine Or.inl ?_
        simp only [seen, if_true]
      | false =>
        refine Or.inr ⟨rfl, rfl, ?_⟩
        simp only [seen, Bool.false_eq_true, if_false]

theorem edited_processBroadcast (env : MasternodeEnv) (mnb : CMasternodeBroadcast) :
    Edited s.vMasternodes (s.processBroadcast net env mnb).1.vMasternodes := by
  have looked := edited_checkAddress env mnb (Edited.refl s.vMasternodes)
  rcases processBroadcast_cases env mnb with same | ⟨-, -, same⟩
  · rw [same]
    exact looked
  have updated : Edited s.vMasternodes
      (mnb.checkAndUpdate net env (entered net env s mnb)).1.vMasternodes :=
    edited_broadcast env mnb looked
  rw [same]
  rcases handleBroadcast_cases env mnb with only | added
  · rw [only]
    exact updated
  · rw [added]
    exact edited_inputs env mnb updated

theorem addresses_processBroadcast {env : MasternodeEnv} {mnb : CMasternodeBroadcast}
    (distinct : DistinctOutpoints s.vMasternodes) (addresses : DistinctAddresses s.vMasternodes)
    (staysOut : StaysOut env s.vMasternodes) (first : FirstIsEnabled mnb s)
    (fits : PingFits mnb s.vMasternodes) :
    DistinctAddresses (s.processBroadcast net env mnb).1.vMasternodes := by
  obtain ⟨distinct, addresses, free⟩ :=
    CMasternodeMan.admits_checkAddress distinct addresses staysOut first fits
  rcases processBroadcast_cases env mnb with same | ⟨notFound, -, same⟩
  · rw [same]
    exact addresses
  obtain ⟨free, fits⟩ := free notFound
  have admits : Admits mnb.addr mnb.vin.prevout
      (mnb.checkAndUpdate net env (entered net env s mnb)).1.vMasternodes :=
    CMasternodeBroadcast.admits_checkAndUpdate ⟨distinct, addresses, free⟩ fits
  rw [same]
  rcases handleBroadcast_cases env mnb with only | added
  · rw [only]
    exact admits.addresses
  · rw [added]
    exact (CMasternodeBroadcast.admits_checkInputsAndAdd admits).addresses

/-- The outpoints stay distinct in every step. -/
theorem distinct_listStep (a : ListAction) (distinct : DistinctOutpoints s.vMasternodes) :
    DistinctOutpoints (listStep net s a).vMasternodes := by
  have start := Edited.refl s.vMasternodes
  cases a with
  | mnb env mnb => exact (edited_processBroadcast env mnb).distinct distinct
  | mnp env mnp => exact (keeps_processPing env mnp distinct).1
  | check env => exact (start.check env).distinct distinct
  | checkAndRemove env forceExpiredRemoval =>
    exact ((start.check env).sublist filter_sublist).distinct distinct
  | remove vin => exact (start.sublist eraseP_sublist).distinct distinct

/-- The addresses stay distinct in a step that meets the condition. -/
theorem addresses_listStep {a : ListAction} (distinct : DistinctOutpoints s.vMasternodes)
    (addresses : DistinctAddresses s.vMasternodes) (keeps : KeepsAddresses s a) :
    DistinctAddresses (listStep net s a).vMasternodes := by
  have fewer : ∀ {l l' : List ListedMasternode}, l'.Sublist l → DistinctAddresses l →
      DistinctAddresses l' := fun sub addresses mn member other member' =>
    addresses mn (sub.subset member) other (sub.subset member')
  cases a with
  | mnb env mnb =>
    obtain ⟨staysOut, first, fits⟩ := keeps
    exact addresses_processBroadcast distinct addresses staysOut first fits
  | mnp env mnp => exact (keeps_processPing env mnp distinct).2 addresses
  | check env => exact CMasternodeMan.addresses_checkAll distinct addresses keeps
  | checkAndRemove env forceExpiredRemoval =>
    exact fewer filter_sublist (CMasternodeMan.addresses_checkAll distinct addresses keeps)
  | remove vin => exact fewer eraseP_sublist addresses

end Step

instance (l : List ListedMasternode) : Decidable (DistinctAddresses l) :=
  inferInstanceAs (Decidable (∀ mn ∈ l, ∀ other ∈ l, _))

instance (l : List ListedMasternode) (mn : ListedMasternode) : Decidable (Alone l mn) :=
  inferInstanceAs (Decidable (∀ other ∈ l, _))

instance (env : MasternodeEnv) (l : List ListedMasternode) : Decidable (StaysOut env l) :=
  inferInstanceAs (Decidable (∀ mn ∈ l, _))

instance (mnb : CMasternodeBroadcast) (s : CMasternodeMan) : Decidable (FirstIsEnabled mnb s) :=
  inferInstanceAs (Decidable (∀ mn ∈ s.vMasternodes, _))

instance (mnb : CMasternodeBroadcast) (l : List ListedMasternode) : Decidable (PingFits mnb l) :=
  inferInstanceAs (Decidable (∀ mn ∈ l, _))

instance (s : CMasternodeMan) (a : ListAction) : Decidable (KeepsAddresses s a) :=
  match a with
  | .mnb _ _ => inferInstanceAs (Decidable (_ ∧ _ ∧ _))
  | .mnp _ _ => inferInstanceAs (Decidable True)
  | .check _ => inferInstanceAs (Decidable (StaysOut _ _))
  | .checkAndRemove _ _ => inferInstanceAs (Decidable (StaysOut _ _))
  | .remove _ => inferInstanceAs (Decidable True)

def samplePing (n : UInt32) (sigTime : Int) : CMasternodePing :=
  { vin := { prevout := ⟨7, n⟩ }, blockHash := 1, sigTime }

/-- The broadcast, at time `now`, of an output at an address. -/
def announce (n : UInt32) (addr : UInt8) (now : Int) : ListAction :=
  .mnb (sampleMasternodeEnv [sampleCollateral 7 (sampleKey 1)] now)
    (sampleBroadcast ⟨7, n⟩ (sampleService addr) now (samplePing n now))

end Esbcoin
