import Esbcoin.Masternode.Manager

/-!
# What the signature of a broadcast covers

The text a broadcast is signed by (`src/masternode.cpp:523-525`) has its address, time, keys and
protocol version, and they are read off it: the port ends the address, the header of the collateral
key ends the time and gives the size of the key (`fields_of_text`). It does not have the input.
-/

namespace Esbcoin

open ListedMasternode CMasternodeMan List

/-- No signature is good under an invalid key, which has no bytes. -/
def ValidKey (verify : VerifyMessage) : Prop :=
  ∀ pubkey vchSig text, verify pubkey vchSig text = true → pubkey ≠ []

/-! ## Keys as text -/

namespace CPubKey

/-- The bytes of a key as characters. -/
def chars (key : CPubKey) : List Char := key.bytes.map fun byte => Char.ofNat byte.toNat

theorem toNat_charOf (byte : UInt8) : (Char.ofNat byte.toNat).toNat = byte.toNat := by
  have all : ∀ n : Fin 256, (Char.ofNat n).toNat = n := by decide +kernel
  exact all ⟨byte.toNat, byte.toNat_lt⟩

theorem charOf_injective : Function.Injective fun byte : UInt8 => Char.ofNat byte.toNat := by
  intro byte byte' equal
  have value := congrArg Char.toNat equal
  simp only [toNat_charOf] at value
  exact UInt8.toNat_inj.mp value

theorem chars_injective : Function.Injective chars := by
  intro key key' equal
  rw [CPubKey.mk.injEq]
  exact map_injective_iff.mpr charOf_injective equal

/-- The header of a valid key is no character of a number, and it gives the size. -/
theorem header_of_valid {key : CPubKey} (valid : key.bytes ≠ []) : ∃ header rest,
    key.bytes = header :: rest ∧ isDecimalChar (Char.ofNat header.toNat) = false ∧
      key.bytes.length = pubKeyLen header := by
  have sized := key.sized.resolve_left valid
  cases bytes : key.bytes with
  | nil => exact absurd bytes valid
  | cons header rest =>
    rw [bytes] at sized
    simp only [isValidPubKey, Bool.and_eq_true, bne_iff_ne, beq_iff_eq] at sized
    refine ⟨header, rest, rfl, ?_, sized.2.symm⟩
    have headers : header = 2 ∨ header = 3 ∨ header = 4 ∨ header = 6 ∨ header = 7 := by
      by_contra other
      apply sized.1
      unfold pubKeyLen
      rw [if_neg (by tauto), if_neg (by tauto)]
    rcases headers with rfl | rfl | rfl | rfl | rfl <;> decide

/-- A key in front of a number is read off the text. -/
theorem chars_append_inj {key key' : CPubKey} {n n' : Int}
    (equal : key.chars ++ decimal n = key'.chars ++ decimal n') : key = key' ∧ n = n' := by
  have number : ∀ {key : CPubKey} {n n' : Int}, key.bytes ≠ [] →
      decimal n ≠ key.chars ++ decimal n' := by
    intro key n n' valid equal
    obtain ⟨header, rest, bytes, kind, -⟩ := header_of_valid valid
    have member : Char.ofNat header.toNat ∈ decimal n := by
      rw [equal, chars, bytes]
      exact mem_cons_self
    rw [isDecimalChar_of_mem member] at kind
    cases kind
  by_cases empty : key.bytes = []
  · by_cases empty' : key'.bytes = []
    · have same : key = key' := by rw [CPubKey.mk.injEq, empty, empty']
      subst same
      exact ⟨rfl, decimal_injective (append_cancel_left equal)⟩
    · rw [show key.chars = [] by rw [chars, empty]; rfl, nil_append] at equal
      exact absurd equal (number empty')
  by_cases empty' : key'.bytes = []
  · rw [show key'.chars = [] by rw [chars, empty']; rfl, nil_append] at equal
    exact absurd equal.symm (number empty)
  obtain ⟨header, rest, bytes, -, size⟩ := header_of_valid empty
  obtain ⟨header', rest', bytes', -, size'⟩ := header_of_valid empty'
  have first : header = header' := by
    rw [chars, chars, bytes, bytes'] at equal
    exact charOf_injective (List.cons.inj equal).1
  obtain ⟨keys, numbers⟩ := append_inj equal (by
    rw [chars, chars, length_map, length_map, size, size', first])
  exact ⟨chars_injective keys, decimal_injective numbers⟩

end CPubKey

namespace CMasternodeBroadcast

variable {net : MasternodeNet} {mnb other : CMasternodeBroadcast}

theorem strMessage_eq (host : NumericHost) (mnb : CMasternodeBroadcast) :
    mnb.strMessage host = mnb.addr.toText host ++ (decimal mnb.sigTime ++
      (mnb.pubKeyCollateralAddress.chars ++
        (mnb.pubKeyMasternode.chars ++ decimal mnb.protocolVersion))) := by
  simp only [strMessage, CPubKey.chars, append_assoc]

/-- Two broadcasts agree in what the signed text has. -/
structure SameSignedFields (first second : CMasternodeBroadcast) : Prop where
  addr : first.addr = second.addr
  pubKeyCollateralAddress : first.pubKeyCollateralAddress = second.pubKeyCollateralAddress
  pubKeyMasternode : first.pubKeyMasternode = second.pubKeyMasternode
  sigTime : first.sigTime = second.sigTime
  protocolVersion : first.protocolVersion = second.protocolVersion

/-- The announcements agree in their input and in what is signed. -/
structure SameAnnouncement (first second : CMasternodeBroadcast) : Prop extends
    SameSignedFields first second where
  vin : first.vin = second.vin

/-- The signed text has every field of the announcement but the input. -/
theorem fields_of_text {host : NumericHost} (port : other.addr.port = mnb.addr.port)
    (key : other.pubKeyCollateralAddress = mnb.pubKeyCollateralAddress)
    (valid : mnb.pubKeyCollateralAddress.bytes ≠ [])
    (text : other.strMessage host = mnb.strMessage host) : SameSignedFields other mnb := by
  rw [strMessage_eq, strMessage_eq, key] at text
  obtain ⟨addr, rest⟩ := CService.toText_append_inj port text
  obtain ⟨header, tail, bytes, kind, -⟩ := CPubKey.header_of_valid valid
  have ends : ∀ more : List Char, ∀ c ∈ (mnb.pubKeyCollateralAddress.chars ++ more).head?,
      isDecimalChar c = false := by
    intro more c head
    rw [CPubKey.chars, bytes] at head
    obtain rfl : Char.ofNat header.toNat = c := Option.mem_some_iff.mp head
    exact kind
  obtain ⟨time, rest⟩ := cut_by_kind (fun _ => isDecimalChar_of_mem)
    (fun _ => isDecimalChar_of_mem) (ends _) (ends _) rest
  obtain ⟨keyMasternode, version⟩ := CPubKey.chars_append_inj (append_cancel_left rest)
  exact ⟨addr, key, keyMasternode, decimal_injective time, version⟩

/-- The broadcast with another input and ping, under the same signature. -/
def withInput (mnb : CMasternodeBroadcast) (vin : CTxIn) (lastPing : CMasternodePing) :
    CMasternodeBroadcast :=
  { mnb with vin, lastPing }

/-- With the signature, only input and ping are left open. -/
theorem SameSignedFields.eq_withInput (same : SameSignedFields other mnb)
    (sig : other.sig = mnb.sig) : other = mnb.withInput other.vin other.lastPing := by
  unfold withInput
  obtain ⟨addr, collateral, masternode, time, version⟩ := same
  rw [← addr, ← collateral, ← masternode, ← time, ← version, ← sig]

end CMasternodeBroadcast

/-! ## The masternode that a broadcast updates -/

section Renewed

variable {net : MasternodeNet} {env : MasternodeEnv} {s : CMasternodeMan}

@[simp] theorem ListedMasternode.check_outpoint {forceCheck : Bool} {mn : ListedMasternode} :
    (mn.check env forceCheck).outpoint = mn.outpoint := by
  unfold check
  split
  · rfl
  · split <;> rfl

theorem CMasternodeMan.find_change {vin : CTxIn} {update : ListedMasternode → ListedMasternode}
    (keeps : ∀ mn, (update mn).outpoint = mn.outpoint) (vin' : CTxIn) :
    (s.change vin update).find vin' =
      if vin'.prevout = vin.prevout then (s.find vin).map update else s.find vin' :=
  KeyedList.find_change keeps s.vMasternodes vin'.prevout

theorem CMasternodeMan.find_changed {vin : CTxIn} {update : ListedMasternode → ListedMasternode}
    {mn : ListedMasternode} (keeps : ∀ mn, (update mn).outpoint = mn.outpoint)
    (found : s.find vin = some mn) : (s.change vin update).find vin = some (update mn) := by
  rw [find_change keeps, if_pos rfl, found, Option.map_some]

/-- The masternode with a ping that was accepted. -/
def CMasternodePing.refresh (env : MasternodeEnv) (ping : CMasternodePing) (mn : ListedMasternode) :
    ListedMasternode :=
  ListedMasternode.check env true { mn with lastPing := ping }

theorem CMasternodePing.refresh_lastPing {ping : CMasternodePing} {mn : ListedMasternode} :
    { ping.refresh env mn with lastPing := ping } = ping.refresh env mn := by
  unfold refresh ListedMasternode.check
  split
  · rfl
  · split <;> rfl

theorem CMasternodePing.vMasternodes_update {ping : CMasternodePing} (pmn : ListedMasternode) :
    (ping.update net env s pmn).vMasternodes = KeyedList.change outpoint
      ping.vin.prevout (refresh env ping) s.vMasternodes :=
  @KeyedList.change_change _ _ _ outpoint ping.vin.prevout
    (ListedMasternode.check env true) (fun mn => { mn with lastPing := ping })
    (fun _ => rfl) s.vMasternodes

/-- The masternode as `UpdateFromNewBroadcast` leaves it (`masternode.cpp:129-148`): a ping is
stored in the masternode that it names, and taken over if that one is enabled then. -/
def CMasternodeBroadcast.renewed (net : MasternodeNet) (env : MasternodeEnv) (s : CMasternodeMan)
    (mnb : CMasternodeBroadcast) (pmn : ListedMasternode) : ListedMasternode :=
  let ping := mnb.lastPing
  let taken := pmn.takeOver mnb
  let target := ((s.change mnb.vin (takeOver mnb)).find ping.vin).filter fun mn =>
    ping.isTimely env && ping.passesFor net env false mn
  if ping.isDefault then { taken with lastPing := ping }
  else if target.isSome ∧ ping.vin.prevout = mnb.vin.prevout then ping.refresh env taken
  else if target.any fun mn => (ping.refresh env mn).isEnabled then { taken with lastPing := ping }
  else taken

theorem find_takeLastPing {mnb : CMasternodeBroadcast} {pmn : ListedMasternode}
    (found : s.find mnb.vin = some pmn) :
    (takeLastPing net env (s.change mnb.vin (takeOver mnb)) mnb).find mnb.vin =
      some (mnb.renewed net env s pmn) := by
  have taken : (s.change mnb.vin (takeOver mnb)).find mnb.vin =
      some (pmn.takeOver mnb) := find_changed (fun _ => rfl) found
  have last : ∀ {t : CMasternodeMan} {mn : ListedMasternode}, t.find mnb.vin = some mn →
      (t.change mnb.vin fun mn => { mn with lastPing := mnb.lastPing }).find mnb.vin =
        some { mn with lastPing := mnb.lastPing } :=
    fun here => find_changed (fun _ => rfl) here
  unfold takeLastPing CMasternodeBroadcast.renewed
  dsimp only
  generalize s.change mnb.vin (takeOver mnb) = t at taken
  cases default : mnb.lastPing.isDefault with
  | true =>
    exact last taken
  | false =>
    simp only [Bool.false_eq_true, if_false, CMasternodePing.checkAndUpdate]
    cases timely : mnb.lastPing.isTimely env with
    | false => simpa using taken
    | true =>
      cases target : t.find mnb.lastPing.vin with
      | none => simpa using taken
      | some mn =>
        cases passes : mnb.lastPing.passesFor net env false mn with
        | false => simpa [passes] using taken
        | true =>
          have list := @CMasternodePing.vMasternodes_update net env t mnb.lastPing mn
          have keeps : ∀ mn, (mnb.lastPing.refresh env mn).outpoint = mn.outpoint :=
            fun mn => check_outpoint
          have after : ∀ vin, (mnb.lastPing.update net env t mn).find vin =
              if vin.prevout = mnb.lastPing.vin.prevout then
                some (mnb.lastPing.refresh env mn) else t.find vin := by
            intro vin
            unfold find at target ⊢
            rw [list, KeyedList.find_change keeps, target]
            rfl
          have own := after mnb.vin
          simp only [Bool.not_true, Bool.false_eq_true, if_false, after mnb.lastPing.vin, if_true,
            passes, Option.any_some, Option.filter_some, Bool.and_self, Option.isSome_some, true_and]
          by_cases same : mnb.lastPing.vin.prevout = mnb.vin.prevout
          · have mine : mn = pmn.takeOver mnb := by
              unfold find at target taken
              rw [same, taken] at target
              exact (Option.some.inj target).symm
            rw [if_pos same.symm] at own
            rw [if_pos same, ← mine]
            split
            · have kept := last own
              rw [CMasternodePing.refresh_lastPing] at kept
              exact kept
            · exact own
          · rw [if_neg (Ne.symm same)] at own
            split
            · exact last (own.trans taken)
            · exact own.trans taken

end Renewed

/-! ## The checks with and without the signature -/

namespace CMasternodeBroadcast

variable {mnb other : CMasternodeBroadcast}

section Checks

variable (net : MasternodeNet) (env : MasternodeEnv) (s : CMasternodeMan)

/-- A broadcast passes `CheckAndUpdate`, the check of its transaction and `CheckInputsAndAdd`. -/
def Passes (mnb : CMasternodeBroadcast) : Prop := (s.handleBroadcast net env mnb).2 = true

instance (mnb : CMasternodeBroadcast) : Decidable (mnb.Passes net env s) :=
  inferInstanceAs (Decidable (_ = true))

/-- The checks on what the signature covers. -/
structure SignedChecks (mnb : CMasternodeBroadcast) : Prop where
  collateralSize : payeeSize net mnb.pubKeyCollateralAddress = 25
  masternodeSize : payeeSize net mnb.pubKeyMasternode = 25
  signed : net.verifyMessage mnb.pubKeyCollateralAddress.bytes mnb.sig (mnb.strMessage net.host) =
    true
  port : mnb.addr.port = net.defaultPort

/-- The masternode of the input, as a broadcast that is newer leaves it
(`masternode.cpp:579-593`). -/
def listedAfter (mnb : CMasternodeBroadcast) : Option ListedMasternode :=
  (s.find mnb.vin).map fun pmn =>
    if pmn.isEnabled ∧ mnb.updates env pmn ∧ pmn.sigTime < mnb.sigTime then
      (mnb.renewed net env s pmn).check env false
    else pmn

/-- The checks that no signature takes part in: the clock, the version, and the input with the list
and the collateral it names. -/
structure UnsignedChecks (mnb : CMasternodeBroadcast) : Prop where
  timely : mnb.sigTime ≤ env.adjustedTime + 60 * 60
  version : env.minProto ≤ mnb.protocolVersion
  scriptSig : mnb.vin.scriptSig = []
  newest : ∀ pmn, s.find mnb.vin = some pmn → pmn.sigTime ≤ mnb.sigTime
  associated : env.isVinAssociatedWithPubkey net mnb.vin mnb.pubKeyCollateralAddress = true
  collateral : env.activeMasternode = some (mnb.vin.prevout, mnb.pubKeyMasternode) ∨
    (mnb.listedAfter net env s).any isEnabled = true ∨ mnb.checkInputs env = .good

variable {net env s}

theorem fieldsPass_iff : mnb.fieldsPass net env = true ↔ mnb.SignedChecks net ∧
    mnb.sigTime ≤ env.adjustedTime + 60 * 60 ∧ env.minProto ≤ mnb.protocolVersion ∧
      mnb.vin.scriptSig = [] := by
  unfold fieldsPass
  simp only [Bool.and_eq_true, Bool.not_eq_eq_eq_not, Bool.not_true, decide_eq_false_iff_not,
    beq_iff_eq, List.isEmpty_iff, gt_iff_lt, Int.not_lt]
  constructor
  · rintro ⟨⟨⟨⟨⟨⟨time, version⟩, size⟩, size'⟩, empty⟩, signed⟩, port⟩
    exact ⟨⟨size, size', signed, port⟩, time, version, empty⟩
  · rintro ⟨⟨size, size', signed, port⟩, time, version, empty⟩
    exact ⟨⟨⟨⟨⟨⟨time, version⟩, size⟩, size'⟩, empty⟩, signed⟩, port⟩

theorem checkAndUpdate_snd : (mnb.checkAndUpdate net env s).2 = true ↔
    mnb.fieldsPass net env = true ∧
      ∀ pmn, s.find mnb.vin = some pmn → pmn.sigTime ≤ mnb.sigTime := by
  unfold checkAndUpdate
  cases pass : mnb.fieldsPass net env with
  | false => simp
  | true =>
    cases found : s.find mnb.vin with
    | none => simp
    | some pmn =>
      by_cases newer : pmn.sigTime > mnb.sigTime
      · simp [newer]
      have older : pmn.sigTime ≤ mnb.sigTime := by omega
      simp only [Bool.not_true, Bool.false_eq_true, if_false, newer, true_and]
      refine iff_of_true ?_ (fun other same => Option.some.inj same ▸ older)
      split
      · rfl
      · split
        · split <;> rfl
        · rfl

theorem listedAfter_eq (passes : (mnb.checkAndUpdate net env s).2 = true) :
    mnb.listedAfter net env s = (mnb.checkAndUpdate net env s).1.find mnb.vin := by
  obtain ⟨fields, newest⟩ := checkAndUpdate_snd.mp passes
  unfold listedAfter checkAndUpdate
  rw [fields]
  cases found : s.find mnb.vin with
  | none => exact found.symm
  | some pmn =>
    have older := newest pmn found
    simp only [Bool.not_true, Bool.false_eq_true, if_false, Int.not_lt.mpr older, Option.map_some]
    cases enabled : pmn.isEnabled with
    | false => simpa using found.symm
    | true =>
      cases updates : mnb.updates env pmn with
      | false => simpa using found.symm
      | true =>
        unfold updateFromNewBroadcast
        by_cases newer : mnb.sigTime ≤ pmn.sigTime
        · simpa [newer, Int.not_lt.mpr newer] using found.symm
        have after : ((takeLastPing net env (s.change mnb.vin (takeOver mnb))
            mnb).change mnb.vin (ListedMasternode.check env false)).find mnb.vin = some _ :=
          find_changed (fun _ => check_outpoint)
            (find_takeLastPing found)
        simp [newer, Int.not_le.mp newer, after]

/-- A collateral that passes its checks is acceptable as an input. -/
theorem acceptable_of_good (good : mnb.checkInputs env = .good) :
    ∃ value, env.acceptableInputs mnb.vin value = true := by
  unfold checkInputs at good
  split at good
  · cases good
  split at good
  · cases good
  rename_i deposit _
  split at good
  · cases good
  · rename_i acceptable
    exact ⟨deposit - COIN / 100, by simpa [MasternodeEnv.inputsAcceptable] using acceptable⟩

theorem addChecked_snd : (mnb.addChecked net env s).2 = true ↔ mnb.checkInputs env = .good := by
  unfold addChecked
  cases mnb.checkInputs env <;> simp

theorem checkInputsAndAdd_snd : (mnb.checkInputsAndAdd net env s).2 = true ↔
    env.activeMasternode = some (mnb.vin.prevout, mnb.pubKeyMasternode) ∨
      (s.find mnb.vin).any isEnabled = true ∨ mnb.checkInputs env = .good := by
  obtain ⟨stops, same⟩ | ⟨notOwn, ⟨found, same⟩ | ⟨pmn, found, disabled, same⟩⟩ :=
    mnb.checkInputsAndAdd_cases net env s
  · rw [same]
    rcases stops with own | ⟨pmn, found, enabled⟩
    · simp [own]
    · simp [found, enabled]
  · simp [same, notOwn, found, addChecked_snd]
  · simp [same, notOwn, found, disabled, addChecked_snd]

/-- A broadcast passes by its signature and by the checks the signature takes no part in. -/
theorem passes_iff :
    mnb.Passes net env s ↔ mnb.SignedChecks net ∧ mnb.UnsignedChecks net env s := by
  have first := @checkAndUpdate_snd mnb net env s
  rw [fieldsPass_iff] at first
  have last := @checkInputsAndAdd_snd mnb net env (mnb.checkAndUpdate net env s).1
  unfold Passes handleBroadcast
  cases updated : mnb.checkAndUpdate net env s with
  | mk t ok =>
    rw [updated] at first last
    cases ok with
    | false =>
      simp only [Bool.false_eq_true, false_iff] at first ⊢
      rintro ⟨signed, timely, version, scriptSig, newest, -, -⟩
      exact first ⟨⟨signed, timely, version, scriptSig⟩, newest⟩
    | true =>
      have after := listedAfter_eq (by rw [updated] : (mnb.checkAndUpdate net env s).2 = true)
      rw [updated] at after
      obtain ⟨⟨signed, timely, version, scriptSig⟩, newest⟩ := first.mp rfl
      cases associated : env.isVinAssociatedWithPubkey net mnb.vin mnb.pubKeyCollateralAddress with
      | false =>
        simp only [Bool.not_false, if_true, Bool.false_eq_true, false_iff]
        rintro ⟨-, unsigned⟩
        rw [unsigned.associated] at associated
        cases associated
      | true =>
        simp only [Bool.not_true, Bool.false_eq_true, if_false]
        rw [last, ← after]
        constructor
        · intro collateral
          exact ⟨signed, timely, version, scriptSig, newest, associated, collateral⟩
        · rintro ⟨-, unsigned⟩
          exact unsigned.collateral

end Checks

/-- With the same signature and key the signed checks hold for every input and ping. -/
theorem SignedChecks.withInput (signed : mnb.SignedChecks net) (vin : CTxIn)
    (lastPing : CMasternodePing) : (mnb.withInput vin lastPing).SignedChecks net :=
  ⟨signed.collateralSize, signed.masternodeSize, signed.signed, signed.port⟩

/-- The announcement under a signature is unique, on any node, exactly if no other input passes the
checks that the signature takes no part in. -/
theorem announcement_unique_iff {net : MasternodeNet} (oneText : OneText net.verifyMessage)
    (validKey : ValidKey net.verifyMessage) {env env' : MasternodeEnv} {s s' : CMasternodeMan}
    {mnb : CMasternodeBroadcast} (passes : mnb.Passes net env s) :
    (∀ other : CMasternodeBroadcast, other.Passes net env' s' → other.sig = mnb.sig →
      other.pubKeyCollateralAddress = mnb.pubKeyCollateralAddress → SameAnnouncement other mnb) ↔
    ∀ vin lastPing, (mnb.withInput vin lastPing).UnsignedChecks net env' s' → vin = mnb.vin := by
  have signed := (passes_iff.mp passes).1
  constructor
  · intro unique vin lastPing unsigned
    exact (unique _ (passes_iff.mpr ⟨signed.withInput vin lastPing, unsigned⟩) rfl rfl).vin
  intro only other accepted sig key
  obtain ⟨signed', unsigned⟩ := passes_iff.mp accepted
  have text : other.strMessage net.host = mnb.strMessage net.host := by
    have good := signed'.signed
    rw [sig, key] at good
    exact oneText _ _ _ _ good signed.signed
  have valid := validKey _ _ _ signed.signed
  have port : other.addr.port = mnb.addr.port := signed'.port.trans signed.port.symm
  have fields := fields_of_text port key valid text
  have input : other.vin = mnb.vin := by
    rw [fields.eq_withInput sig] at unsigned
    exact only _ _ unsigned
  exact ⟨fields, input⟩

end CMasternodeBroadcast

/-! ## One signature for two outpoints -/

def sampleKey (tag : UInt8) : CPubKey := .ending tag

def hexHost : NumericHost where
  text ip := ip.toList.flatMap fun byte => hexText 2 byte.toNat
  injective := by
    have bytes : ∀ l l' : List UInt8, l.length = l'.length →
        l.flatMap (fun byte => hexText 2 byte.toNat) =
          l'.flatMap (fun byte => hexText 2 byte.toNat) → l = l' := by
      intro l
      induction l with
      | nil => exact fun l' size _ => (length_eq_zero_iff.mp size.symm).symm
      | cons byte l ih =>
        rintro (_ | ⟨byte', l'⟩) size equal
        · cases size
        · obtain ⟨first, rest⟩ := append_inj equal (by simp)
          have value := hexText_injective byte.toNat_lt byte'.toNat_lt first
          rw [UInt8.toNat_inj.mp value, ih l' (Nat.succ.inj size) rest]
    intro ip ip' equal
    exact Vector.toList_inj.mp (bytes _ _ (by simp) equal)
  noBracket := by
    intro ip member
    obtain ⟨byte, -, digit⟩ := mem_flatMap.mp member
    have all : ∀ n : Fin 256, ']' ∉ hexText 2 n := by decide +kernel
    exact all ⟨byte.toNat, byte.toNat_lt⟩ digit

def sampleNet : MasternodeNet where
  verifyMessage pubkey vchSig text :=
    !pubkey.isEmpty && vchSig.map (fun byte => Char.ofNat byte.toNat) == text
  hash160 key := key.take 20
  host := hexHost
  defaultPort := 8333
  broadcastHash sigTime _ := BitVec.ofInt 256 sigTime
  pingHash vin sigTime := vin.prevout.hash + BitVec.ofInt 256 sigTime

theorem sampleNet_oneText : OneText sampleNet.verifyMessage := by
  intro pubkey vchSig text text' good good'
  simp only [sampleNet, Bool.and_eq_true, beq_iff_eq] at good good'
  rw [← good.2, good'.2]

theorem sampleNet_validKey : ValidKey sampleNet.verifyMessage := by
  rintro pubkey vchSig text good rfl
  cases good

def sampleCollateral (hash : UInt256) (key : CPubKey) : CTransaction where
  hash
  nVersion := 1
  vin := [{ prevout := ⟨1, 0⟩ }]
  vout := List.replicate 2 ⟨5000 * COIN,
    getScriptForDestination (some (.keyID (sampleNet.hash160 key.bytes)))⟩
  nLockTime := 0

def sampleMasternodeEnv (txs : List CTransaction) (now : Int) : MasternodeEnv where
  time := now
  adjustedTime := now
  shutdownRequested := false
  lockMain := true
  source :=
    { mempool := ∅
      fTxIndex := true
      txIndex := txs.foldr (fun tx index =>
        index.insert tx.hash { pos := none, nTxOffset := tx.hash.toNat }) ∅
      readTx := fun pos =>
        (txs.find? fun tx => tx.hash.toNat == pos.nTxOffset).map fun tx => (1, tx)
      readBlockFromDisk := fun _ => none
      pcoinsTip := FlatCoins.empty }
  mapBlockIndex := (∅ : BlockMap).insert 1 { phashBlock := some 1 }
  chainActive := ⟨[1]⟩
  acceptableInputs _ _ := true
  getInputAge _ := 100
  activeMasternode := none

def sampleService (n : UInt8) : CService :=
  ⟨#v[0, 0, 0, 0, 0, 0, 0, 0, 0, 0, 0xff, 0xff, 1, 2, 3, n], 8333⟩

def sampleBroadcast (prevout : COutPoint) (addr : CService) (sigTime : Int)
    (lastPing : CMasternodePing) : CMasternodeBroadcast :=
  let mnb : CMasternodeBroadcast :=
    { vin := { prevout }
      addr
      pubKeyCollateralAddress := sampleKey 1
      pubKeyMasternode := sampleKey 2
      sig := []
      sigTime
      protocolVersion := 80000
      lastPing }
  { mnb with sig := (mnb.strMessage hexHost).map fun c => c.toNat.toUInt8 }

example : (sampleBroadcast ⟨7, 0⟩ (sampleService 4) 1000 {}).strMessage hexHost =
    "1.2.3.4:8333".toList ++ "1000".toList ++ (sampleKey 1).chars ++ (sampleKey 2).chars ++
      "80000".toList := by decide +kernel

/-- The broadcast for one output of a transaction is accepted for the other. -/
theorem other_output_announced :
    ¬ ∀ net : MasternodeNet, OneText net.verifyMessage → ValidKey net.verifyMessage →
      ∀ (env env' : MasternodeEnv) (s s' : CMasternodeMan) (mnb other : CMasternodeBroadcast),
        mnb.Passes net env s → other.Passes net env' s' → other.sig = mnb.sig →
        other.pubKeyCollateralAddress = mnb.pubKeyCollateralAddress →
        other.SameAnnouncement mnb := by
  intro claim
  have same := claim sampleNet sampleNet_oneText sampleNet_validKey
    (sampleMasternodeEnv [sampleCollateral 7 (sampleKey 1)] 2000)
    (sampleMasternodeEnv [sampleCollateral 7 (sampleKey 1)] 2000) {} {}
    (sampleBroadcast ⟨7, 0⟩ (sampleService 4) 1000 {})
    (sampleBroadcast ⟨7, 1⟩ (sampleService 4) 1000 {}) (by decide +kernel) (by decide +kernel)
    (by decide +kernel) rfl
  have vin := same.vin
  revert vin
  decide +kernel

/-- A node that has seen the outputs of transaction 7 spent, and has a deposit that pays to
another script. -/
def spentDepositEnv : MasternodeEnv :=
  { sampleMasternodeEnv [sampleCollateral 7 (sampleKey 1),
      { sampleCollateral 8 (sampleKey 1) with vout := [⟨5000 * COIN, [0x51]⟩] }] 2000 with
    acceptableInputs := fun vin _ => vin.prevout.hash == 8 }

/-- Where the deposit is spent, no input is announced under the signature. -/
theorem spent_deposit_unannounced :
    (sampleBroadcast ⟨7, 0⟩ (sampleService 4) 1000 {}).Passes sampleNet
        (sampleMasternodeEnv [sampleCollateral 7 (sampleKey 1)] 2000) {} ∧
      ∀ other : CMasternodeBroadcast, other.Passes sampleNet spentDepositEnv {} →
        other.sig = (sampleBroadcast ⟨7, 0⟩ (sampleService 4) 1000 {}).sig →
        other.pubKeyCollateralAddress = sampleKey 1 →
        other.SameAnnouncement (sampleBroadcast ⟨7, 0⟩ (sampleService 4) 1000 {}) := by
  have passes : (sampleBroadcast ⟨7, 0⟩ (sampleService 4) 1000 {}).Passes sampleNet
      (sampleMasternodeEnv [sampleCollateral 7 (sampleKey 1)] 2000) {} := by decide +kernel
  refine ⟨passes, (CMasternodeBroadcast.announcement_unique_iff sampleNet_oneText
    sampleNet_validKey passes).mpr ?_⟩
  intro vin lastPing unsigned
  rcases unsigned.collateral with own | listed | good
  · cases own
  · cases listed
  obtain ⟨value, acceptable⟩ := CMasternodeBroadcast.acceptable_of_good good
  have hash : vin.prevout.hash = 8 := beq_iff_eq.mp acceptable
  have other : spentDepositEnv.isVinAssociatedWithPubkey sampleNet vin (sampleKey 1) =
      spentDepositEnv.isVinAssociatedWithPubkey sampleNet { prevout := ⟨8, 0⟩ } (sampleKey 1) := by
    unfold MasternodeEnv.isVinAssociatedWithPubkey
    rw [hash]
  have notOwn : spentDepositEnv.isVinAssociatedWithPubkey sampleNet { prevout := ⟨8, 0⟩ }
      (sampleKey 1) = false := by decide +kernel
  exact absurd (other.symm.trans unsigned.associated) (by rw [notOwn]; exact Bool.false_ne_true)

end Esbcoin
