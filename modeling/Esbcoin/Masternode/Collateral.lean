import Esbcoin.Masternode.Addresses
import Esbcoin.Mempool.Accept

/-!
# The collateral of a masternode

Which output a broadcast names is checked by `IsVinAssociatedWithPubkey`
(`src/obfuscation.cpp:2106-2126`), by `GetInputCheckingTx` (`src/masternodeman.cpp:200-219`) and by
`AcceptableInputs`. The first looks at every output of the transaction. A broadcast that these
checks refuse may already have taken a masternode out of the list (`refused_leaves_list_iff`).
-/

namespace Esbcoin

open KeyedList StepRun ListedMasternode CMasternodeBroadcast List

/-! ## A refused broadcast -/

section Refused

variable {net : MasternodeNet} {env : MasternodeEnv} {s : CMasternodeMan}
  {mnb : CMasternodeBroadcast}

/-- Checks that refuse a broadcast leave the list they find. -/
theorem vMasternodes_addChecked_of_refused (refused : (mnb.addChecked net env s).2 = false) :
    (mnb.addChecked net env s).1.vMasternodes = s.vMasternodes := by
  unfold addChecked at refused ⊢
  cases verdict : mnb.checkInputs env with
  | later => rfl
  | refused => rfl
  | good =>
    rw [verdict] at refused
    cases refused

/-- The masternode that `Find` returns is one that `Remove` takes out. -/
theorem vMasternodes_remove_ne {pmn : ListedMasternode} (found : s.find mnb.vin = some pmn) :
    (s.remove pmn.vin).vMasternodes ≠ s.vMasternodes := by
  intro same
  have member : pmn ∈ s.vMasternodes := mem_of_find?_eq_some found
  have shorter : (s.remove pmn.vin).vMasternodes.length = s.vMasternodes.length - 1 :=
    length_eraseP_of_mem member (by simp)
  have some := length_pos_of_mem member
  rw [same] at shorter
  omega

/-- A refused broadcast leaves the list alone exactly if the masternode it finds, if any, is
enabled. -/
theorem refused_leaves_list_iff (net : MasternodeNet) (env : MasternodeEnv) (s : CMasternodeMan)
    (mnb : CMasternodeBroadcast) (refused : (mnb.checkInputsAndAdd net env s).2 = false) :
    (mnb.checkInputsAndAdd net env s).1.vMasternodes = s.vMasternodes ↔
      ∀ pmn, s.find mnb.vin = some pmn → pmn.isEnabled = true := by
  obtain ⟨-, same⟩ | ⟨-, ⟨absent, same⟩ | ⟨pmn, found, disabled, same⟩⟩ :=
    mnb.checkInputsAndAdd_cases net env s
  · rw [same] at refused
    cases refused
  · rw [same] at refused ⊢
    rw [absent]
    exact iff_of_true (vMasternodes_addChecked_of_refused refused) nofun
  rw [same] at refused ⊢
  refine iff_of_false ?_ fun all => ?_
  · rw [vMasternodes_addChecked_of_refused refused]
    exact vMasternodes_remove_ne found
  · have enabled := all pmn found
    rw [disabled] at enabled
    cases enabled

end Refused

def busyEnv (now : Int) : MasternodeEnv :=
  { sampleMasternodeEnv [sampleCollateral 7 (sampleKey 1)] now with lockMain := false }

/-- A masternode is silent for over two hours and found expired. -/
def expiredActions : List ListAction :=
  [announce 0 4 1000, .check (sampleMasternodeEnv [sampleCollateral 7 (sampleKey 1)] 8500)]

/-- Its new broadcast meets a lock that is taken, and the masternode is gone. -/
theorem expired_removed_by_missed_lock :
    ¬ ∀ (net : MasternodeNet) (env : MasternodeEnv) (s : CMasternodeMan)
      (mnb : CMasternodeBroadcast), (mnb.checkInputsAndAdd net env s).2 = false →
        (mnb.checkInputsAndAdd net env s).1.vMasternodes = s.vMasternodes := by
  intro claim
  have same := claim sampleNet (busyEnv 8600) (run (listStep sampleNet) {} expiredActions)
    (sampleBroadcast ⟨7, 0⟩ (sampleService 4) 8600 {}) (by decide +kernel)
  revert same
  decide +kernel

/-- A masternode of another output stays in the list. -/
theorem other_kept_by_missed_lock :
    ((sampleBroadcast ⟨7, 1⟩ (sampleService 5) 8600 {}).checkInputsAndAdd sampleNet (busyEnv 8600)
        (run (listStep sampleNet) {} expiredActions)).1.vMasternodes =
      (run (listStep sampleNet) {} expiredActions).vMasternodes :=
  (refused_leaves_list_iff sampleNet (busyEnv 8600) (run (listStep sampleNet) {} expiredActions)
    (sampleBroadcast ⟨7, 1⟩ (sampleService 5) 8600 {}) (by decide +kernel)).mpr
      (by decide +kernel)

/-! ## What a node reads of its coins and its memory pool -/

/-- `GetInputAge` (`main.cpp:869-886`). -/
def getInputAge (view : FlatCoins) (chainActive : CChain) (vin : CTxIn) : Int :=
  match view.get vin.prevout.hash with
  | some coins => if coins.nHeight < 0 then 0 else chainActive.height + 1 - coins.nHeight
  | none => -1

/-- What a node asks when it checks a collateral. -/
structure CollateralNode where
  accept : AcceptEnv
  pool : CTxMemPool
  /-- `obfuScationPool.collateralPubKey`. -/
  collateralPubKey : CScript
  /-- The hash of a transaction with one input and one output. -/
  checkingHash : CTxIn → CTxOut → UInt256

namespace CollateralNode

variable (node : CollateralNode)

/-- The unspent outputs, with those of the memory pool. -/
def view : FlatCoins := node.pool.viewOver node.accept.pcoinsTip.coins

/-- The transaction of `GetInputCheckingTx` (`masternodeman.cpp:210-216`). -/
def inputCheckingTx (vin : CTxIn) (value : Int) : CTransaction where
  hash := node.checkingHash vin ⟨value, node.collateralPubKey⟩
  nVersion := 1
  vin := [vin]
  vout := [⟨value, node.collateralPubKey⟩]
  nLockTime := 0

/-- The node's own answers on inputs. -/
def answers (env : MasternodeEnv) : MasternodeEnv :=
  { env with
    acceptableInputs := fun vin value =>
      decide ((acceptableInputs node.accept node.pool (node.inputCheckingTx vin value) false false
        false).2 = .ok ())
    getInputAge := getInputAge node.view env.chainActive }

/-- An output is unspent in the chain and the memory pool, with the confirmations of a collateral. -/
structure Unspent (env : MasternodeEnv) (o : COutPoint) : Prop where
  notInPool : node.pool.mapNextTx.lookup o = none
  available : ∃ coins, node.view.get o.hash = some coins ∧ coins.isAvailable o.n = true ∧
    coins.nHeight + MASTERNODE_MIN_CONFIRMATIONS ≤ env.chainActive.height + 1

variable {node}

theorem unspent_of_good {env : MasternodeEnv} {mnb : CMasternodeBroadcast}
    (good : mnb.checkInputs (node.answers env) = .good) : node.Unspent env mnb.vin.prevout := by
  obtain ⟨value, acceptable⟩ := acceptable_of_good good
  obtain ⟨admits, notCoinBase, inputs⟩ :=
    unspent_of_acceptableInputs (of_decide_eq_true acceptable)
  have aged : MASTERNODE_MIN_CONFIRMATIONS ≤
      getInputAge node.view env.chainActive mnb.vin := by
    unfold CMasternodeBroadcast.checkInputs at good
    split at good
    · cases good
    split at good
    · cases good
    split at good
    · cases good
    split at good
    · cases good
    · rename_i young
      exact Int.not_lt.mp young
  refine ⟨admits.2.2 _ (mem_singleton.mpr rfl), ?_⟩
  unfold FlatCoins.haveInputs at inputs
  rw [notCoinBase, Bool.false_or] at inputs
  have here := all_eq_true.mp inputs mnb.vin (mem_singleton.mpr rfl)
  unfold getInputAge at aged
  cases found : node.view.get mnb.vin.prevout.hash with
  | none =>
    rw [found] at aged
    change MASTERNODE_MIN_CONFIRMATIONS ≤ -1 at aged
    exact absurd aged (by decide)
  | some coins =>
    change (match node.view.get mnb.vin.prevout.hash with
      | some coins => coins.isAvailable mnb.vin.prevout.n
      | none => false) = true at here
    rw [found] at here aged
    change MASTERNODE_MIN_CONFIRMATIONS ≤
      if coins.nHeight < 0 then 0 else env.chainActive.height + 1 - coins.nHeight at aged
    refine ⟨coins, rfl, here, ?_⟩
    by_cases below : coins.nHeight < 0
    · rw [if_pos below] at aged
      exact absurd aged (by decide)
    · rw [if_neg below] at aged
      omega

end CollateralNode

/-! ## Who is registered -/

/-- Outpoint and key of every registered masternode. -/
def registrations (s : CMasternodeMan) : List (COutPoint × CPubKey) :=
  s.vMasternodes.map fun mn => (mn.outpoint, mn.pubKeyCollateralAddress)

section Registrations

variable {net : MasternodeNet} {env : MasternodeEnv} {s : CMasternodeMan}

theorem ListedMasternode.check_pubKeyCollateralAddress {forceCheck : Bool} {mn : ListedMasternode} :
    (mn.check env forceCheck).pubKeyCollateralAddress = mn.pubKeyCollateralAddress := by
  unfold check
  split
  · rfl
  · split <;> rfl

theorem ListedMasternode.check_registration {forceCheck : Bool} (mn : ListedMasternode) :
    ((mn.check env forceCheck).outpoint, (mn.check env forceCheck).pubKeyCollateralAddress) =
      (mn.outpoint, mn.pubKeyCollateralAddress) := by
  rw [check_outpoint, check_pubKeyCollateralAddress]

theorem registrations_checkAddress (mnb : CMasternodeBroadcast) :
    registrations (s.checkAddress env mnb).1 = registrations s := by
  unfold CMasternodeMan.checkAddress
  split
  · rfl
  · split
    · rfl
    · exact map_change check_registration s.vMasternodes

theorem registrations_ping (ping : CMasternodePing) (fRequireEnabled : Bool) :
    registrations (ping.checkAndUpdate net env s fRequireEnabled).1 = registrations s := by
  rcases CMasternodePing.checkAndUpdate_cases fRequireEnabled with same | ⟨pmn, -, -, list⟩
  · rw [same]
  unfold registrations
  rw [list]
  apply map_change
  exact fun mn => check_registration _

theorem registrations_takeLastPing (mnb : CMasternodeBroadcast) :
    registrations (takeLastPing net env s mnb) = registrations s := by
  have pinged : registrations (mnb.lastPing.checkAndUpdate net env s false).1 = registrations s :=
    registrations_ping mnb.lastPing false
  have stored : ∀ t : CMasternodeMan, registrations
      (t.change mnb.vin fun mn => { mn with lastPing := mnb.lastPing }) = registrations t := by
    intro t
    apply map_change
    exact fun _ => rfl
  unfold takeLastPing
  cases default : mnb.lastPing.isDefault with
  | true => exact stored s
  | false =>
    cases result : mnb.lastPing.checkAndUpdate net env s false with
    | mk t fresh =>
      rw [result] at pinged
      cases fresh with
      | false => exact pinged
      | true => exact (stored t).trans pinged

/-- A broadcast updates a masternode with the same collateral key only. -/
theorem registrations_checkAndUpdate (mnb : CMasternodeBroadcast) :
    registrations (mnb.checkAndUpdate net env s).1 = registrations s := by
  unfold checkAndUpdate
  split
  · rfl
  cases found : s.find mnb.vin with
  | none => rfl
  | some pmn =>
    by_cases newer : pmn.sigTime > mnb.sigTime
    · simp only [if_pos newer]
    simp only [if_neg newer]
    cases enabled : pmn.isEnabled with
    | false => rfl
    | true =>
      cases updates : mnb.updates env pmn with
      | false => rfl
      | true =>
        simp only [Bool.not_true, Bool.false_eq_true, if_false, if_true]
        unfold updateFromNewBroadcast
        by_cases older : mnb.sigTime ≤ pmn.sigTime
        · simp only [if_pos older]
        have sameKey : pmn.pubKeyCollateralAddress = mnb.pubKeyCollateralAddress := by
          unfold CMasternodeBroadcast.updates at updates
          simp only [Bool.and_eq_true, beq_iff_eq] at updates
          exact updates.1
        have moved : registrations (s.change mnb.vin (takeOver mnb)) =
            registrations s := by
          apply map_change_of_found
          intro mn here
          obtain rfl : pmn = mn := Option.some.inj (found.symm.trans here)
          rw [sameKey]
          rfl
        simp only [if_neg older]
        refine (map_change check_registration _).trans ?_
        exact (registrations_takeLastPing mnb).trans moved

theorem registrations_add (mn : ListedMasternode) :
    ∀ pair ∈ registrations (s.add mn), pair ∈ registrations s ∨
      pair = (mn.outpoint, mn.pubKeyCollateralAddress) := by
  intro pair member
  unfold CMasternodeMan.add at member
  split at member
  · exact Or.inl member
  split at member
  · exact Or.inl member
  · unfold registrations at member
    rw [map_append, mem_append, map_singleton, mem_singleton] at member
    exact member

theorem registrations_remove (vin : CTxIn) :
    ∀ pair ∈ registrations (s.remove vin), pair ∈ registrations s :=
  fun _ member => (eraseP_sublist.map _).subset member

theorem registration_ofBroadcast (env : MasternodeEnv) (mnb : CMasternodeBroadcast) :
    ((ofBroadcast env mnb).outpoint,
        (ofBroadcast env mnb).pubKeyCollateralAddress) =
      (mnb.vin.prevout, mnb.pubKeyCollateralAddress) := by
  unfold ofBroadcast
  split <;> rfl

theorem registrations_checkInputsAndAdd (mnb : CMasternodeBroadcast) :
    ∀ pair ∈ registrations (mnb.checkInputsAndAdd net env s).1, pair ∈ registrations s ∨
      (pair = (mnb.vin.prevout, mnb.pubKeyCollateralAddress) ∧ mnb.checkInputs env = .good) := by
  have added : ∀ t : CMasternodeMan, ∀ pair ∈ registrations (mnb.addChecked net env t).1,
      pair ∈ registrations t ∨
        (pair = (mnb.vin.prevout, mnb.pubKeyCollateralAddress) ∧ mnb.checkInputs env = .good) := by
    intro t pair member
    unfold addChecked at member
    cases verdict : mnb.checkInputs env with
    | later =>
      rw [verdict] at member
      exact Or.inl member
    | refused =>
      rw [verdict] at member
      exact Or.inl member
    | good =>
      rw [verdict] at member
      rcases registrations_add _ pair member with before | new
      · exact Or.inl before
      · exact Or.inr ⟨new.trans (registration_ofBroadcast env mnb), rfl⟩
  intro pair member
  obtain ⟨-, same⟩ | ⟨-, ⟨-, same⟩ | ⟨pmn, -, -, same⟩⟩ := mnb.checkInputsAndAdd_cases net env s
  · rw [same] at member
    exact Or.inl member
  · rw [same] at member
    exact added s pair member
  · rw [same] at member
    exact (added _ pair member).imp_left (registrations_remove _ pair)

/-- What a broadcast newly registers is its own outpoint under its own key, which signed it, has
passed the check of the transaction and the checks of the collateral. -/
theorem registrations_processBroadcast (mnb : CMasternodeBroadcast) :
    ∀ pair ∈ registrations (s.processBroadcast net env mnb).1, pair ∈ registrations s ∨
      (pair = (mnb.vin.prevout, mnb.pubKeyCollateralAddress) ∧ mnb.SignedChecks net ∧
        env.isVinAssociatedWithPubkey net mnb.vin mnb.pubKeyCollateralAddress = true ∧
        mnb.checkInputs env = .good) := by
  intro pair member
  rcases processBroadcast_cases env mnb with same | ⟨-, -, same⟩
  · rw [same, registrations_checkAddress] at member
    exact Or.inl member
  have entry : registrations (entered net env s mnb) = registrations s :=
    registrations_checkAddress mnb
  have updated : registrations (mnb.checkAndUpdate net env (entered net env s mnb)).1 =
      registrations s := (registrations_checkAndUpdate mnb).trans entry
  rw [same] at member
  unfold CMasternodeMan.handleBroadcast at member
  have checked := @checkAndUpdate_snd mnb net env (entered net env s mnb)
  cases result : mnb.checkAndUpdate net env (entered net env s mnb) with
  | mk t ok =>
    rw [result] at member updated checked
    cases ok with
    | false =>
      rw [← updated]
      exact Or.inl member
    | true =>
      have signed := (fieldsPass_iff.mp (checked.mp rfl).1).1
      cases associated : env.isVinAssociatedWithPubkey net mnb.vin
          mnb.pubKeyCollateralAddress with
      | false =>
        simp only [associated, Bool.not_false, if_true] at member
        rw [← updated]
        exact Or.inl member
      | true =>
        simp only [associated, Bool.not_true, Bool.false_eq_true, if_false] at member
        rcases registrations_checkInputsAndAdd mnb pair member with before | ⟨new, good⟩
        · rw [← updated]
          exact Or.inl before
        · exact Or.inr ⟨new, signed, rfl, good⟩

end Registrations

/-! ## Whose output is registered -/

section Ownership

variable (net : MasternodeNet) (env : MasternodeEnv)

/-- The output has the value of a deposit. -/
def isDepositOutput (out : CTxOut) : Bool :=
  CMasternode.levelOf out.nValue env.chainActive.height != 0

/-- The output pays to the hash of the key. -/
def paysTo (key : CPubKey) (out : CTxOut) : Prop :=
  out.scriptPubKey = getScriptForDestination (some (.keyID (net.hash160 key.bytes)))

/-- The output that an outpoint names. -/
def outputAt (o : COutPoint) : Option CTxOut :=
  (getTransaction env.source env.chainActive o.hash true).bind fun (tx, _) =>
    tx.vout[o.n.toNat]?

/-- The output of an outpoint is an unspent deposit that pays to the key, whose owner signed. -/
structure OwnOutput (node : CollateralNode) (mnb : CMasternodeBroadcast) (o : COutPoint)
    (key : CPubKey) : Prop where
  signed : net.verifyMessage key.bytes mnb.sig (mnb.strMessage net.host) = true
  unspent : node.Unspent env o
  deposit : ∃ out, outputAt env o = some out ∧ isDepositOutput env out = true ∧ paysTo net key out

/-- If some deposit of the transaction pays to the key, the output that the broadcast names does. -/
def NamesPayingOutput (mnb : CMasternodeBroadcast) : Prop :=
  ∀ tx hashBlock, getTransaction env.source env.chainActive mnb.vin.prevout.hash true =
      some (tx, hashBlock) →
    (∃ out ∈ tx.vout, isDepositOutput env out = true ∧ paysTo net mnb.pubKeyCollateralAddress out) →
      ∃ out, outputAt env mnb.vin.prevout = some out ∧ paysTo net mnb.pubKeyCollateralAddress out

variable {net env}

theorem deposit_of_good {mnb : CMasternodeBroadcast} (good : mnb.checkInputs env = .good) :
    ∃ out, outputAt env mnb.vin.prevout = some out ∧ isDepositOutput env out = true := by
  have found : (env.isDepositCoins mnb.vin).isSome = true := by
    unfold CMasternodeBroadcast.checkInputs at good
    split at good
    · cases good
    split at good
    · cases good
    · rename_i deposit
      rw [deposit]
      rfl
  unfold MasternodeEnv.isDepositCoins at found
  unfold outputAt
  cases tx : getTransaction env.source env.chainActive mnb.vin.prevout.hash true with
  | none =>
    rw [tx] at found
    cases found
  | some pair =>
    obtain ⟨prevout_tx, hashBlock⟩ := pair
    rw [tx] at found
    change (prevout_tx.vout[mnb.vin.prevout.n.toNat]?.bind fun out =>
      if CMasternode.levelOf out.nValue env.chainActive.height = 0 then none
      else some out.nValue).isSome = true at found
    change ∃ out, prevout_tx.vout[mnb.vin.prevout.n.toNat]? = some out ∧ _
    cases here : prevout_tx.vout[mnb.vin.prevout.n.toNat]? with
    | none =>
      rw [here] at found
      cases found
    | some out =>
      refine ⟨out, rfl, ?_⟩
      rw [here, Option.bind_some] at found
      split at found
      · cases found
      · rename_i level
        exact bne_iff_ne.mpr level

theorem paying_of_associated {vin : CTxIn} {key : CPubKey}
    (associated : env.isVinAssociatedWithPubkey net vin key = true) :
    ∃ tx hashBlock, getTransaction env.source env.chainActive vin.prevout.hash true =
        some (tx, hashBlock) ∧
      ∃ out ∈ tx.vout, isDepositOutput env out = true ∧ paysTo net key out := by
  unfold MasternodeEnv.isVinAssociatedWithPubkey at associated
  cases found : getTransaction env.source env.chainActive vin.prevout.hash true with
  | none =>
    rw [found] at associated
    cases associated
  | some pair =>
    rw [found] at associated
    obtain ⟨out, member, both⟩ := any_eq_true.mp associated
    simp only [Bool.and_eq_true, beq_iff_eq] at both
    exact ⟨pair.1, pair.2, rfl, out, member, both.1, both.2⟩

/-- What a broadcast newly registers is an output of the key exactly if the broadcast names one that
pays to the key, once some deposit of the transaction does. -/
theorem registers_own_output_iff (net : MasternodeNet) (env : MasternodeEnv)
    (node : CollateralNode) (s : CMasternodeMan) (mnb : CMasternodeBroadcast) (o : COutPoint)
    (key : CPubKey)
    (registered : (o, key) ∈ registrations (s.processBroadcast net (node.answers env) mnb).1)
    (new : (o, key) ∉ registrations s) :
    OwnOutput net (node.answers env) node mnb o key ↔
      NamesPayingOutput net (node.answers env) mnb := by
  rcases registrations_processBroadcast mnb _ registered with
    before | ⟨same, signed, associated, good⟩
  · exact absurd before new
  obtain ⟨rfl, rfl⟩ := Prod.mk.inj same
  constructor
  · rintro own - - - -
    obtain ⟨out, found, -, pays⟩ := own.deposit
    exact ⟨out, found, pays⟩
  intro names
  obtain ⟨tx, hashBlock, found, some⟩ := paying_of_associated associated
  obtain ⟨out, here, pays⟩ := names tx hashBlock found some
  obtain ⟨out', here', deposit⟩ := deposit_of_good good
  obtain rfl : out = out' := Option.some.inj (here.symm.trans here')
  exact ⟨signed.signed, CollateralNode.unspent_of_good good, out, here, deposit, pays⟩

end Ownership

/-! ## A collateral of somebody else -/

def ownersNet : MasternodeNet := { sampleNet with hash160 := fun key => key.drop 13 }

/-- A transaction with an output of 5000 coins to the first key and one to another. -/
def twoOwners (other : CPubKey) : CTransaction where
  hash := 7
  nVersion := 1
  vin := [{ prevout := ⟨1, 0⟩ }]
  vout := [sampleKey 1, other].map fun key =>
    ⟨5000 * COIN, getScriptForDestination (some (.keyID (ownersNet.hash160 key.bytes)))⟩
  nLockTime := 0

/-- A node whose tip has the outputs of the transaction. -/
def ownersNode (other : CPubKey) : CollateralNode where
  accept := { mixingEnv with
    pcoinsTip := ⟨FlatCoins.empty.put 7
      { vout := (twoOwners other).vout, nHeight := 1, nVersion := 1 }, 300⟩ }
  pool := .init
  collateralPubKey := [0x51]
  checkingHash _ _ := 9

/-- What it reads, with 20 blocks on top of the transaction. -/
def ownersEnv (other : CPubKey) : MasternodeEnv :=
  { sampleMasternodeEnv [twoOwners other] 2000 with
    chainActive := ⟨(List.range 20).map fun n => BitVec.ofNat 256 (n + 1)⟩ }

/-- The owner of the first output registers the second one, which pays to another key. -/
theorem output_of_another_registered :
    ¬ ∀ net : MasternodeNet, OneText net.verifyMessage →
      ∀ (env : MasternodeEnv) (node : CollateralNode) (s : CMasternodeMan)
        (mnb : CMasternodeBroadcast) (o : COutPoint) (key : CPubKey),
        (o, key) ∈ registrations (s.processBroadcast net (node.answers env) mnb).1 →
          (o, key) ∉ registrations s → OwnOutput net (node.answers env) node mnb o key := by
  intro claim
  obtain ⟨out, found, -, pays⟩ := (claim ownersNet sampleNet_oneText (ownersEnv (sampleKey 3))
    (ownersNode (sampleKey 3)) {} (sampleBroadcast ⟨7, 1⟩ (sampleService 4) 1000 {}) ⟨7, 1⟩
    (sampleKey 1) (by decide +kernel) (by decide +kernel)).deposit
  have second : outputAt ((ownersNode (sampleKey 3)).answers (ownersEnv (sampleKey 3))) ⟨7, 1⟩ =
      some ⟨5000 * COIN, getScriptForDestination
        (some (.keyID (ownersNet.hash160 (sampleKey 3).bytes)))⟩ := by decide +kernel
  obtain rfl := Option.some.inj (found.symm.trans second)
  revert pays
  unfold paysTo
  decide +kernel

/-- Its own output is registered as an unspent deposit of its key. -/
theorem own_output_registered :
    OwnOutput ownersNet ((ownersNode (sampleKey 3)).answers (ownersEnv (sampleKey 3)))
      (ownersNode (sampleKey 3)) (sampleBroadcast ⟨7, 0⟩ (sampleService 4) 1000 {}) ⟨7, 0⟩
      (sampleKey 1) := by
  refine (registers_own_output_iff ownersNet (ownersEnv (sampleKey 3)) (ownersNode (sampleKey 3))
    {} (sampleBroadcast ⟨7, 0⟩ (sampleService 4) 1000 {}) ⟨7, 0⟩ (sampleKey 1) (by decide +kernel)
    (by decide +kernel)).mpr ?_
  intro tx hashBlock _ _
  exact ⟨⟨5000 * COIN, getScriptForDestination
    (some (.keyID (ownersNet.hash160 (sampleKey 1).bytes)))⟩, by decide +kernel, rfl⟩

end Esbcoin
