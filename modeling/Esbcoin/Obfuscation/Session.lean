import Mathlib.Data.List.Flatten
import Esbcoin.Obfuscation.Messages

/-!
# The users of a mixing session

`SessionStep` says what any request, timeout or reset can do to the users, the collaterals and the
entries of a session. A refusal of `AddEntry` (`src/obfuscation.cpp:1013-1062`) takes a user away,
but no collateral; with no such refusal the users are as many as the collaterals.
-/

namespace Esbcoin

open CObfuScationEntry List

/-- What an entry offers, whatever its signatures: its outputs, and the outpoints and sequences of
its inputs. -/
def CObfuScationEntry.offered (e : CObfuScationEntry) : List CTxOut × List (COutPoint × UInt32) :=
  (e.vout, e.sev.map fun s => (s.prevout, s.nSequence))

/-- The outpoints of all entries. -/
def CObfuscationPool.outpoints (pool : CObfuscationPool) : List COutPoint :=
  pool.entries.flatMap fun e => e.sev.map fun s => s.prevout

/-- The session of the pool goes on: the users and their collaterals are the same, no entry has
come, and the final transaction is the same up to its signatures or one of the entries. -/
structure CObfuscationPool.GoesOn (pool pool' : CObfuscationPool) : Prop where
  sessionUsers : pool'.sessionUsers = pool.sessionUsers
  vecSessionCollateral : pool'.vecSessionCollateral = pool.vecSessionCollateral
  sessionID : pool'.sessionID = pool.sessionID
  sessionDenom : pool'.sessionDenom = pool.sessionDenom
  offers : (pool'.entries.map offered).Sublist
    (pool.entries.map offered)
  spends : pool'.finalTransaction.vin.map CTxIn.prevout =
      pool.finalTransaction.vin.map CTxIn.prevout ∨
    (pool'.finalTransaction.vin.map CTxIn.prevout).Subperm pool.outpoints

/-- No users, collaterals, entries or spends. -/
structure CObfuscationPool.Cleared (pool : CObfuscationPool) : Prop where
  sessionUsers : pool.sessionUsers = 0
  vecSessionCollateral : pool.vecSessionCollateral = []
  entries : pool.entries = []
  spends : pool.finalTransaction.vin = []

/-- The session goes on, or is over. -/
def CObfuscationPool.Shrinks (pool pool' : CObfuscationPool) : Prop :=
  pool.GoesOn pool' ∨ pool'.Cleared

/-- The four tests of `AddEntry` (`obfuscation.cpp:1017-1051`) find something wrong. -/
def CObfuscationPool.EntryRefused (node : MixingNode) (pool : CObfuscationPool) (vin : List CTxIn)
    (nAmount : Int) (txCollateral : CTransaction) : Prop :=
  (∃ txin ∈ vin, txin.prevout.isNull = true ∨ nAmount < 0) ∨
    node.isCollateralValid txCollateral = false ∨
    node.nPoolMaxTransactions ≤ pool.entries.length ∨
    ∃ txin ∈ vin, ∃ v ∈ pool.entries, ∃ s ∈ v.sev, s.toCTxIn = txin

/-- A `dsi` request passes all that is tested in front of `AddEntry`, which refuses it. -/
def MixingCall.RefusedEntry (pool : CObfuscationPool) (call : MixingCall) : Prop :=
  match call.action with
  | .dsi compatible vin nAmount txCollateral vout =>
    compatible = true ∧ call.node.nPoolMaxTransactions ≤ pool.sessionUsers ∧
      pool.isCompatibleWithEntries vout = true ∧ call.node.checkEntry vin vout = .ok () ∧
      pool.EntryRefused call.node vin nAmount txCollateral
  | _ => False

/-- A `dsi` request brings an entry: it passes all tests in front of `AddEntry` and in it. -/
def MixingCall.BringsEntry (pool : CObfuscationPool) (call : MixingCall) (e : CObfuScationEntry) :
    Prop :=
  match call.action with
  | .dsi compatible vin nAmount txCollateral vout =>
    compatible = true ∧ call.node.nPoolMaxTransactions ≤ pool.sessionUsers ∧
      pool.isCompatibleWithEntries vout = true ∧ call.node.checkEntry vin vout = .ok () ∧
      ¬ pool.EntryRefused call.node vin nAmount txCollateral ∧
      e.vout = vout ∧ e.sev = vin.map CTxDSIn.ofTxIn
  | _ => False

/-- What an action can do to the session of a pool of so many transactions, where `refused` says
whether it is an entry refused, and `brings` which entry it brings. -/
inductive SessionStep (nPoolMaxTransactions : Int) (refused : Prop)
    (brings : CObfuScationEntry → Prop) (pool pool' : CObfuscationPool) : Prop where
  | shrinks (rest : pool.Shrinks pool')
  | opens (none : pool.sessionUsers ≤ 0) (users : pool'.sessionUsers = 1)
      (collaterals : pool'.vecSessionCollateral.length = pool.vecSessionCollateral.length + 1)
      (entries : pool'.entries = pool.entries)
      (spends : pool'.finalTransaction = pool.finalTransaction)
  | joins (some : 0 < pool.sessionUsers) (room : pool.sessionUsers < nPoolMaxTransactions)
      (users : pool'.sessionUsers = pool.sessionUsers + 1)
      (collaterals : pool'.vecSessionCollateral.length = pool.vecSessionCollateral.length + 1)
      (sessionID : pool'.sessionID = pool.sessionID)
      (sessionDenom : pool'.sessionDenom = pool.sessionDenom)
      (entries : pool'.entries = pool.entries)
      (spends : pool'.finalTransaction = pool.finalTransaction)
  | adds (e : CObfuScationEntry) (entry : brings e)
      (ready : nPoolMaxTransactions ≤ pool.sessionUsers)
      (room : (pool.entries.length : Int) < nPoolMaxTransactions)
      (agrees : ∀ v ∈ pool.entries, getDenominations e.vout = getDenominations v.vout)
      (rest : { pool with entries := pool.entries ++ [e] }.Shrinks pool')
  | refuses (entry : refused) (ready : nPoolMaxTransactions ≤ pool.sessionUsers)
      (equal : pool' = { pool with sessionUsers := pool.sessionUsers - 1 })

namespace CObfuscationPool

variable {env : MixingEnv} {node : MixingNode} {draws : CheckDraws}
  {verifyScript : CScript → CScript → CMutableTransaction → Nat → Bool}
  {pool pool' pool'' : CObfuscationPool}

theorem outpoints_eq (pool : CObfuscationPool) :
    pool.outpoints =
      (pool.entries.map offered).flatMap fun offer => offer.2.map Prod.fst := by
  unfold outpoints offered
  rw [flatMap_map]
  congr 1
  funext e
  rw [map_map]
  rfl

theorem GoesOn.outpoints (next : pool.GoesOn pool') : pool'.outpoints.Sublist pool.outpoints := by
  rw [outpoints_eq, outpoints_eq]
  exact next.offers.flatMap _

theorem GoesOn.refl (pool : CObfuscationPool) : pool.GoesOn pool :=
  ⟨rfl, rfl, rfl, rfl, .refl _, Or.inl rfl⟩

theorem Shrinks.refl (pool : CObfuscationPool) : pool.Shrinks pool := Or.inl (GoesOn.refl pool)

theorem GoesOn.trans (first : pool.GoesOn pool') (second : pool'.GoesOn pool'') :
    pool.GoesOn pool'' where
  sessionUsers := second.sessionUsers.trans first.sessionUsers
  vecSessionCollateral := second.vecSessionCollateral.trans first.vecSessionCollateral
  sessionID := second.sessionID.trans first.sessionID
  sessionDenom := second.sessionDenom.trans first.sessionDenom
  offers := second.offers.trans first.offers
  spends := by
    rcases second.spends with same | those
    · rw [same]
      exact first.spends
    · exact Or.inr (those.trans first.outpoints.subperm)

theorem Cleared.goesOn (cleared : pool.Cleared) (next : pool.GoesOn pool') : pool'.Cleared where
  sessionUsers := next.sessionUsers.trans cleared.sessionUsers
  vecSessionCollateral := next.vecSessionCollateral.trans cleared.vecSessionCollateral
  entries := by
    have fewer := next.offers
    rw [cleared.entries] at fewer
    exact map_eq_nil_iff.mp (sublist_nil.mp fewer)
  spends := by
    rcases next.spends with same | those
    · rw [cleared.spends] at same
      exact map_eq_nil_iff.mp same
    · rw [CObfuscationPool.outpoints, cleared.entries] at those
      exact map_eq_nil_iff.mp (subperm_nil.mp those)

theorem Shrinks.trans (first : pool.Shrinks pool') (second : pool'.Shrinks pool'') :
    pool.Shrinks pool'' := by
  rcases second with second | cleared
  · rcases first with first | cleared
    · exact Or.inl (first.trans second)
    · exact Or.inr (cleared.goesOn second)
  · exact Or.inr cleared

/-! ## What each part does -/

theorem cleared_setNull (pool : CObfuscationPool) (timeMillis : Int) :
    (pool.setNull timeMillis).Cleared := ⟨rfl, rfl, rfl, rfl⟩

theorem updateState_goesOn (pool : CObfuscationPool) (newState : PoolStatus) :
    pool.GoesOn (updateState env pool newState) := by
  unfold updateState
  split
  · exact GoesOn.refl pool
  · exact ⟨rfl, rfl, rfl, rfl, .refl _, Or.inl rfl⟩

theorem checkFinalTransaction_shrinks (pool : CObfuscationPool) (outcome : FinalOutcome) :
    pool.Shrinks (pool.checkFinalTransaction env outcome) := by
  unfold checkFinalTransaction
  split
  · exact Shrinks.refl pool
  cases outcome with
  | invalid => exact Or.inr ((cleared_setNull pool _).goesOn (updateState_goesOn _ _))
  | unsigned => exact Shrinks.refl pool
  | transmitted => exact Or.inr (cleared_setNull pool _)

theorem checkFull_goesOn (pool : CObfuscationPool) : pool.GoesOn (pool.checkFull env) := by
  unfold checkFull
  split
  · exact updateState_goesOn pool _
  · exact GoesOn.refl pool

theorem checkFinalize_goesOn (pool : CObfuscationPool) :
    pool.GoesOn (pool.checkFinalize env draws) := by
  unfold checkFinalize
  split
  · have next : pool.GoesOn (updateState env pool .signing) := updateState_goesOn pool .signing
    split
    · refine ⟨next.sessionUsers, next.vecSessionCollateral, next.sessionID, next.sessionDenom,
        next.offers, Or.inr ?_⟩
      have mixed := (draws.shuffleIn_perm ((updateState env pool .signing).entries.flatMap
        fun e => e.sev.map CTxDSIn.toCTxIn)).map CTxIn.prevout
      rw [map_flatMap] at mixed
      simp only [map_map] at mixed
      exact mixed.subperm.trans next.outpoints.subperm
    · exact next
  · exact GoesOn.refl pool

theorem checkSigned_shrinks (pool : CObfuscationPool) :
    pool.Shrinks (pool.checkSigned env draws) := by
  unfold checkSigned
  split
  · exact Shrinks.trans (Or.inl (updateState_goesOn pool _)) (checkFinalTransaction_shrinks _ _)
  · exact Shrinks.refl pool

theorem checkEnded_shrinks (pool : CObfuscationPool) : pool.Shrinks (pool.checkEnded env) := by
  unfold checkEnded
  split
  · exact Or.inr (cleared_setNull pool _)
  · exact Shrinks.refl pool

theorem check_shrinks (pool : CObfuscationPool) : pool.Shrinks (pool.check env draws) := by
  have full : pool.Shrinks (pool.checkFull env) := Or.inl (checkFull_goesOn pool)
  have finalize : pool.Shrinks ((pool.checkFull env).checkFinalize env draws) :=
    full.trans (Or.inl (checkFinalize_goesOn _))
  exact (finalize.trans (checkSigned_shrinks _)).trans (checkEnded_shrinks _)

theorem addSigTo_map {newVin : CTxIn} {sev sev' : List CTxDSIn}
    (added : addSigTo newVin sev = some sev') :
    (sev'.map fun s => (s.prevout, s.nSequence)) = sev.map fun s => (s.prevout, s.nSequence) := by
  induction sev generalizing sev' with
  | nil => cases added
  | cons s sev ih =>
    rw [addSigTo] at added
    split at added
    · split at added
      · cases added
      · obtain rfl := Option.some.inj added
        rfl
    · obtain ⟨rest, more, rfl⟩ := Option.map_eq_some_iff.mp added
      rw [map_cons, map_cons, ih more]

theorem addSig_offered {e e' : CObfuScationEntry} {newVin : CTxIn}
    (added : e.addSig newVin = some e') : e'.offered = e.offered := by
  obtain ⟨sev, signed, rfl⟩ := Option.map_eq_some_iff.mp added
  exact congrArg (Prod.mk e.vout) (addSigTo_map signed)

theorem addSigToEntries_offers {newVin : CTxIn} {entries entries' : List CObfuScationEntry}
    (added : addSigToEntries newVin entries = some entries') :
    entries'.map offered = entries.map offered := by
  induction entries generalizing entries' with
  | nil => cases added
  | cons e entries ih =>
    rw [addSigToEntries] at added
    cases sig : e.addSig newVin with
    | some e' =>
      simp only [sig, Option.some.injEq] at added
      subst added
      rw [map_cons, map_cons, addSig_offered sig]
    | none =>
      simp only [sig] at added
      obtain ⟨rest, more, rfl⟩ := Option.map_eq_some_iff.mp added
      rw [map_cons, map_cons, ih more]

/-- What does not look at the signature of an input is the same of a signed transaction. -/
theorem signFinal_map {β : Type} {f : CTxIn → β} (newVin : CTxIn) (tx : CMutableTransaction)
    (ignores : ∀ vin scriptSig, f { vin with scriptSig } = f vin) :
    (signFinal newVin tx).vin.map f = tx.vin.map f := by
  unfold signFinal
  rw [map_map]
  congr 1
  funext vin
  simp only [Function.comp_apply]
  split
  · exact ignores vin newVin.scriptSig
  · rfl

theorem signFinal_prevouts (newVin : CTxIn) (tx : CMutableTransaction) :
    (signFinal newVin tx).vin.map CTxIn.prevout = tx.vin.map CTxIn.prevout :=
  signFinal_map newVin tx fun _ _ => rfl

theorem addScriptSig_goesOn (pool : CObfuscationPool) (newVin : CTxIn) :
    pool.GoesOn (pool.addScriptSig verifyScript newVin).2 := by
  unfold addScriptSig
  split
  · exact GoesOn.refl pool
  split
  · exact GoesOn.refl pool
  simp only
  cases added : addSigToEntries newVin pool.entries with
  | some entries =>
    refine ⟨rfl, rfl, rfl, rfl, ?_, Or.inl (signFinal_prevouts _ _)⟩
    rw [addSigToEntries_offers added]
  | none => exact ⟨rfl, rfl, rfl, rfl, .refl _, Or.inl (signFinal_prevouts _ _)⟩

variable (verifyScript) in
theorem addScriptSigs_goesOn (pool : CObfuscationPool) (sigs : List CTxIn) :
    pool.GoesOn (pool.addScriptSigs verifyScript sigs).2 := by
  refine List.foldlRecOn (motive := fun result : Bool × CObfuscationPool => pool.GoesOn result.2)
    sigs _ (GoesOn.refl pool) ?_
  intro result before item _
  exact before.trans (addScriptSig_goesOn result.2 item)

theorem dropExpired_shrinks (pool : CObfuscationPool) (kept entries : List CObfuScationEntry)
    (fewer : (kept ++ entries).Sublist pool.entries) :
    pool.Shrinks (dropExpired env kept entries pool) := by
  induction entries generalizing kept with
  | nil =>
    rw [append_nil] at fewer
    exact Or.inl ⟨rfl, rfl, rfl, rfl, fewer.map _, Or.inl rfl⟩
  | cons e entries ih =>
    rw [dropExpired]
    split
    · split
      · exact Or.inr (cleared_setNull pool _)
      · apply ih kept
        exact (List.Sublist.append_left (sublist_cons_self e entries) kept).trans fewer
    · exact ih (kept ++ [e]) (by rwa [append_assoc])

theorem checkQueueTimeout_shrinks (pool : CObfuscationPool) :
    pool.Shrinks (pool.checkQueueTimeout env) := by
  unfold checkQueueTimeout
  split
  · have dropped : pool.Shrinks (dropExpired env [] pool.entries pool) :=
      dropExpired_shrinks pool [] pool.entries (.refl _)
    simp only
    split
    · exact Or.inr (cleared_setNull _ _)
    · exact dropped
  · split
    · exact Or.inr ((cleared_setNull pool _).goesOn (updateState_goesOn _ _))
    · exact Shrinks.refl pool

theorem checkTimeout_shrinks (pool : CObfuscationPool) : pool.Shrinks (pool.checkTimeout env) := by
  unfold checkTimeout
  simp only
  split
  · exact Or.inr ((cleared_setNull _ _).goesOn (updateState_goesOn _ _))
  · exact checkQueueTimeout_shrinks pool

theorem checkForCompleteQueue_goesOn (pool : CObfuscationPool) :
    pool.GoesOn (pool.checkForCompleteQueue env) := by
  unfold checkForCompleteQueue
  split
  · exact updateState_goesOn pool _
  · exact GoesOn.refl pool

theorem isCompatibleWithSession_step {refused : Prop} {brings : CObfuScationEntry → Prop}
    (pool : CObfuscationPool) (nDenom : Int)
    (txCollateral : CTransaction) (newID : Int) :
    SessionStep node.nPoolMaxTransactions refused brings pool
      (pool.isCompatibleWithSession node nDenom txCollateral newID).2 := by
  unfold isCompatibleWithSession
  split
  · exact .shrinks (Shrinks.refl pool)
  split
  · exact .shrinks (Shrinks.refl pool)
  by_cases none : pool.sessionUsers ≤ 0
  · have zero : (if pool.sessionUsers < 0 then { pool with sessionUsers := 0 } else pool) =
        { pool with sessionUsers := 0 } := by
      split
      · rfl
      · have is_zero : pool.sessionUsers = 0 := by omega
        rw [← is_zero]
    simp only [zero, if_true]
    have next : ∀ pool : CObfuscationPool,
        pool.GoesOn (updateState node.toMixingEnv pool .queue) := fun pool =>
      updateState_goesOn pool .queue
    refine .opens none (next _).sessionUsers ?_ ?_ ?_
    · show (_ ++ [txCollateral]).length = _
      rw [(next _).vecSessionCollateral, length_append]
      rfl
    · show (updateState _ _ _).entries = _
      unfold updateState
      split <;> rfl
    · show (updateState _ _ _).finalTransaction = _
      unfold updateState
      split <;> rfl
  · rw [if_neg (by omega : ¬ pool.sessionUsers < 0)]
    rw [if_neg (by omega : ¬ pool.sessionUsers = 0)]
    split
    · exact .shrinks (Shrinks.refl pool)
    rename_i open_
    split
    · exact .shrinks (Shrinks.refl pool)
    refine .joins (by omega) ?_ rfl ?_ rfl rfl rfl rfl
    · by_contra full
      exact open_ (Or.inr (by omega))
    · show (_ ++ [txCollateral]).length = _
      rw [length_append]
      rfl

theorem addEntry_step (pool : CObfuscationPool) (isNode : node.fMasterNode = true)
    (vin : List CTxIn) (nAmount : Int) (txCollateral : CTransaction) (vout : List CTxOut) :
    (¬ pool.EntryRefused node vin nAmount txCollateral ∧
      ∃ e, e.vout = vout ∧ e.sev = vin.map CTxDSIn.ofTxIn ∧
      pool.addEntry node vin nAmount txCollateral vout =
        (⟨true, some .MSG_ENTRIES_ADDED⟩, { pool with entries := pool.entries ++ [e] })) ∨
    (pool.EntryRefused node vin nAmount txCollateral ∧
      ∃ errorID, pool.addEntry node vin nAmount txCollateral vout =
        (⟨false, some errorID⟩, { pool with sessionUsers := pool.sessionUsers - 1 })) := by
  unfold addEntry EntryRefused
  rw [isNode]
  simp only [Bool.not_true, Bool.false_eq_true, if_false]
  split
  · rename_i wrong
    exact Or.inr ⟨Or.inl (by simpa using wrong), _, rfl⟩
  rename_i inputs
  split
  · rename_i wrong
    exact Or.inr ⟨Or.inr (Or.inl (by simpa using wrong)), _, rfl⟩
  rename_i collateral
  split
  · rename_i full
    exact Or.inr ⟨Or.inr (Or.inr (Or.inl full)), _, rfl⟩
  rename_i room
  split
  · rename_i there
    exact Or.inr ⟨Or.inr (Or.inr (Or.inr (by simpa using there))), _, rfl⟩
  rename_i nowhere
  refine Or.inl ⟨?_, _, rfl, rfl, rfl⟩
  rintro (wrong | wrong | full | ⟨txin, spent, v, entry, s, there, same⟩)
  · exact inputs (by simpa using wrong)
  · exact collateral (by simpa using wrong)
  · exact room full
  · apply nowhere
    exact any_eq_true.mpr ⟨txin, spent, any_eq_true.mpr
      ⟨v, entry, any_eq_true.mpr ⟨s, there, beq_iff_eq.mpr same⟩⟩⟩

theorem nodup_of_checkEntry {vin : List CTxIn} {vout : List CTxOut}
    (checked : node.checkEntry vin vout = .ok ()) : (vin.map CTxIn.prevout).Nodup := by
  unfold MixingNode.checkEntry at checked
  split at checked
  · cases checked
  simp only at checked
  split at checked
  · cases checked
  split at checked
  · cases checked
  split at checked
  · cases checked
  split at checked
  · cases checked
  · rename_i accepted
    exact (unspent_of_acceptableInputs (Decidable.not_not.mp accepted)).1.2.1

theorem processDsi_step (pool : CObfuscationPool) (isNode : node.fMasterNode = true)
    (compatible : Bool) (vin : List CTxIn) (nAmount : Int) (txCollateral : CTransaction)
    (vout : List CTxOut) :
    SessionStep node.nPoolMaxTransactions
      (MixingCall.RefusedEntry pool ⟨node, draws, .dsi compatible vin nAmount txCollateral vout⟩)
      (MixingCall.BringsEntry pool ⟨node, draws, .dsi compatible vin nAmount txCollateral vout⟩)
      pool
      (pool.processDsi node draws compatible vin nAmount txCollateral vout).2 := by
  unfold processDsi
  cases compatible with
  | false => exact .shrinks (Shrinks.refl pool)
  | true =>
    rw [isNode]
    simp only [Bool.not_true, Bool.false_eq_true, if_false]
    split
    · exact .shrinks (Shrinks.refl pool)
    rename_i ready
    split
    · exact .shrinks (Shrinks.refl pool)
    rename_i fits
    have fits : pool.isCompatibleWithEntries vout = true := by simpa using fits
    cases checked : node.checkEntry vin vout with
    | error errorID => exact .shrinks (Shrinks.refl pool)
    | ok _ =>
      rcases addEntry_step pool isNode vin nAmount txCollateral vout with
        ⟨right, e, same, sev, result⟩ | ⟨wrong, errorID, result⟩
      · simp only [result]
        have ready : node.nPoolMaxTransactions ≤ pool.sessionUsers := by omega
        have room : (pool.entries.length : Int) < node.nPoolMaxTransactions := by
          by_contra full
          exact right (Or.inr (Or.inr (Or.inl (by omega))))
        refine .adds e ⟨rfl, ready, fits, checked, right, same, sev⟩ ready room ?_
          (check_shrinks _)
        intro v member
        rw [isCompatibleWithEntries, Bool.and_eq_true, all_eq_true] at fits
        rw [same]
        exact eq_of_beq (fits.2 v member)
      · simp only [result]
        have ready : node.nPoolMaxTransactions ≤ pool.sessionUsers := by omega
        exact .refuses ⟨rfl, ready, fits, checked, wrong⟩ ready rfl

end CObfuscationPool

/-- What one action on the pool of a masternode can do. -/
theorem mixingStep_session (verifyScript : CScript → CScript → CMutableTransaction → Nat → Bool)
    (pool : CObfuscationPool) (call : MixingCall) (isNode : call.node.fMasterNode = true) :
    SessionStep call.node.nPoolMaxTransactions (call.RefusedEntry pool) (call.BringsEntry pool) pool
      (mixingStep verifyScript pool call) := by
  obtain ⟨node, draws, action⟩ := call
  cases action with
  | dsa gate nDenom txCollateral newID =>
    have isNode : node.fMasterNode = true := isNode
    show SessionStep _ _ _ pool (pool.processDsa node gate nDenom txCollateral newID).2
    unfold CObfuscationPool.processDsa
    rw [isNode]
    split
    · exact .shrinks (.refl pool)
    simp only [Bool.not_true, Bool.false_eq_true, if_false]
    split
    · exact .shrinks (.refl pool)
    · split
      · exact .shrinks (.refl pool)
      · exact pool.isCompatibleWithSession_step nDenom txCollateral newID
  | dsi compatible vin nAmount txCollateral vout =>
    exact pool.processDsi_step isNode compatible vin nAmount txCollateral vout
  | dss compatible sigs =>
    refine .shrinks ?_
    show pool.Shrinks (pool.processDss verifyScript node.toMixingEnv draws compatible sigs)
    unfold CObfuscationPool.processDss
    split
    · exact .refl pool
    have signed := pool.addScriptSigs_goesOn verifyScript sigs
    split
    · rename_i result
      rw [result] at signed
      exact CObfuscationPool.Shrinks.trans (Or.inl signed) (CObfuscationPool.check_shrinks _)
    · rename_i result
      rw [result] at signed
      exact Or.inl signed
  | checkTimeout => exact .shrinks (pool.checkTimeout_shrinks)
  | checkForCompleteQueue => exact .shrinks (Or.inl pool.checkForCompleteQueue_goesOn)
  | reset => exact .shrinks (Or.inr (pool.cleared_setNull _))

/-! ## Every run -/

/-- What every action keeps in a pool of `max` transactions. -/
structure SessionSound (max : Int) (pool : CObfuscationPool) : Prop where
  few : pool.sessionUsers ≤ max
  nobody : pool.sessionUsers ≤ 0 → pool.Cleared
  ready : pool.entries ≠ [] → max - 1 ≤ pool.sessionUsers
  room : (pool.entries.length : Int) ≤ max
  denominations : ∀ v ∈ pool.entries, ∀ w ∈ pool.entries,
    getDenominations v.vout = getDenominations w.vout

/-- The users of the session have given a collateral each, and have an entry each at most. -/
structure SessionCounted (pool : CObfuscationPool) : Prop where
  users : pool.sessionUsers = pool.vecSessionCollateral.length
  entries : (pool.entries.length : Int) ≤ pool.sessionUsers

namespace CObfuscationPool

variable {pool pool' : CObfuscationPool} {max : Int}

theorem GoesOn.length_le (next : pool.GoesOn pool') :
    pool'.entries.length ≤ pool.entries.length := by
  have fewer := next.offers.length_le
  rwa [length_map, length_map] at fewer

theorem GoesOn.exists_vout (next : pool.GoesOn pool') {v : CObfuScationEntry}
    (member : v ∈ pool'.entries) : ∃ w ∈ pool.entries, w.vout = v.vout := by
  obtain ⟨w, before, same⟩ := mem_map.mp (next.offers.subset (mem_map_of_mem member))
  exact ⟨w, before, congrArg Prod.fst same⟩

theorem Cleared.sound (cleared : pool.Cleared) (positive : 0 ≤ max) : SessionSound max pool where
  few := by rw [cleared.sessionUsers]; exact positive
  nobody _ := cleared
  ready some_entry := absurd cleared.entries some_entry
  room := by rw [cleared.entries]; exact positive
  denominations := by rw [cleared.entries]; exact nofun

theorem Cleared.counted (cleared : pool.Cleared) : SessionCounted pool where
  users := by rw [cleared.sessionUsers, cleared.vecSessionCollateral]; rfl
  entries := by rw [cleared.sessionUsers, cleared.entries]; exact Int.le_refl 0

theorem Shrinks.sound (next : pool.Shrinks pool') (positive : 0 ≤ max)
    (sound : SessionSound max pool) : SessionSound max pool' := by
  rcases next with next | cleared
  · have fewer := next.length_le
    refine ⟨?_, fun none => ?_, fun some_entry => ?_, ?_, ?_⟩
    · rw [next.sessionUsers]
      exact sound.few
    · rw [next.sessionUsers] at none
      exact (sound.nobody none).goesOn next
    · rw [next.sessionUsers]
      apply sound.ready
      intro empty
      rw [empty] at fewer
      exact some_entry (length_eq_zero_iff.mp (Nat.le_zero.mp fewer))
    · have room := sound.room
      omega
    · intro v hv w hw
      obtain ⟨v', hv', sameV⟩ := next.exists_vout hv
      obtain ⟨w', hw', sameW⟩ := next.exists_vout hw
      rw [← sameV, ← sameW]
      exact sound.denominations v' hv' w' hw'
  · exact cleared.sound positive

theorem Shrinks.counted (next : pool.Shrinks pool') (counted : SessionCounted pool) :
    SessionCounted pool' := by
  rcases next with next | cleared
  · have fewer := next.length_le
    have few := counted.entries
    refine ⟨?_, ?_⟩
    · rw [next.sessionUsers, next.vecSessionCollateral]
      exact counted.users
    · rw [next.sessionUsers]
      omega
  · exact cleared.counted

end CObfuscationPool

namespace SessionStep

variable {pool pool' : CObfuscationPool} {max : Int} {refused : Prop}
  {brings : CObfuScationEntry → Prop}

section

variable (step : SessionStep max refused brings pool pool')
include step

theorem sound (two : 2 ≤ max) (sound : SessionSound max pool) : SessionSound max pool' := by
  cases step with
  | shrinks rest => exact rest.sound (by omega) sound
  | opens none users collaterals entries spends =>
    have empty := (sound.nobody none).entries
    rw [← entries] at empty
    refine ⟨by omega, by omega, fun some_entry => absurd empty some_entry, ?_, ?_⟩
    · rw [empty]
      show (0 : Int) ≤ max
      omega
    · rw [empty]
      exact nofun
  | joins some room users collaterals sessionID sessionDenom entries spends =>
    refine ⟨by omega, by omega, fun some_entry => ?_, ?_, ?_⟩
    · rw [entries] at some_entry
      have ready := sound.ready some_entry
      omega
    · rw [entries]
      exact sound.room
    · rw [entries]
      exact sound.denominations
  | adds e entry ready room agrees rest =>
    refine rest.sound (by omega) ⟨sound.few, fun none => ?_, fun _ => ?_, ?_, ?_⟩
    · have none : pool.sessionUsers ≤ 0 := none
      omega
    · show max - 1 ≤ pool.sessionUsers
      omega
    · show ((pool.entries ++ [e]).length : Int) ≤ max
      rw [length_append, length_singleton]
      omega
    intro v hv w hw
    rcases mem_append.mp hv with old | new
    · rcases mem_append.mp hw with old' | new'
      · exact sound.denominations v old w old'
      · rw [mem_singleton.mp new']
        exact (agrees v old).symm
    rw [mem_singleton.mp new]
    rcases mem_append.mp hw with old' | new'
    · exact agrees w old'
    · rw [mem_singleton.mp new']
  | refuses entry ready equal =>
    subst equal
    refine ⟨?_, fun none => ?_, fun _ => ?_, sound.room, sound.denominations⟩
    · show pool.sessionUsers - 1 ≤ max
      have few := sound.few
      omega
    · have none : pool.sessionUsers - 1 ≤ 0 := none
      omega
    · show max - 1 ≤ pool.sessionUsers - 1
      omega

theorem counted (accepted : ¬ refused) (sound : SessionSound max pool)
    (counted : SessionCounted pool) : SessionCounted pool' := by
  cases step with
  | shrinks rest => exact rest.counted counted
  | opens none users collaterals entries spends =>
    have cleared := sound.nobody none
    refine ⟨?_, ?_⟩
    · rw [users, collaterals, cleared.vecSessionCollateral]
      rfl
    · rw [users, entries, cleared.entries]
      exact Int.zero_le_ofNat 1
  | joins some room users collaterals sessionID sessionDenom entries spends =>
    have before := counted.users
    have few := counted.entries
    refine ⟨by omega, ?_⟩
    rw [users, entries]
    omega
  | adds e entry ready room agrees rest =>
    refine rest.counted ⟨counted.users, ?_⟩
    show ((pool.entries ++ [e]).length : Int) ≤ pool.sessionUsers
    rw [length_append, length_singleton]
    omega
  | refuses entry ready equal => exact absurd entry accepted

/-- A session that is opened or over has no entries. -/
theorem session_eq_or_empty (sound : SessionSound max pool) :
    pool'.entries = [] ∨
      (pool'.sessionID = pool.sessionID ∧ pool'.sessionDenom = pool.sessionDenom) := by
  have shrunk : ∀ {pool : CObfuscationPool}, pool.Shrinks pool' → pool'.entries = [] ∨
      (pool'.sessionID = pool.sessionID ∧ pool'.sessionDenom = pool.sessionDenom) := by
    rintro pool (next | cleared)
    · exact Or.inr ⟨next.sessionID, next.sessionDenom⟩
    · exact Or.inl cleared.entries
  cases step with
  | shrinks rest => exact shrunk rest
  | opens none users collaterals entries spends =>
    exact Or.inl (entries.trans (sound.nobody none).entries)
  | joins some room users collaterals sessionID sessionDenom entries spends =>
    exact Or.inr ⟨sessionID, sessionDenom⟩
  | adds e entry ready room agrees rest =>
    have kept := shrunk rest
    exact kept
  | refuses entry ready equal =>
    subst equal
    exact Or.inr ⟨rfl, rfl⟩

end

end SessionStep

/-- The node is a masternode with this limit. -/
def OnMasternode (max : Int) (call : MixingCall) : Prop :=
  call.node.fMasterNode = true ∧ call.node.nPoolMaxTransactions = max

section Runs

variable {verifyScript : CScript → CScript → CMutableTransaction → Nat → Bool} {max : Int}

theorem mixingStep_sound (two : 2 ≤ max) {pool : CObfuscationPool} {call : MixingCall}
    (own : OnMasternode max call) (sound : SessionSound max pool) :
    SessionSound max (mixingStep verifyScript pool call) := by
  have step := mixingStep_session verifyScript pool call own.1
  rw [own.2] at step
  exact step.sound two sound

variable (verifyScript) in
theorem mixing_run_sound (two : 2 ≤ max) (calls : List MixingCall)
    (own : ∀ call ∈ calls, OnMasternode max call) (timeMillis : Int) :
    SessionSound max (StepRun.run (mixingStep verifyScript) (.init timeMillis) calls) :=
  StepRun.AllSteps.invariant (P := fun _ call => OnMasternode max call)
    (fun _ _ sound own => mixingStep_sound two own sound)
    (StepRun.AllSteps.of_forall (fun call member _ => own call member) _)
    ((CObfuscationPool.cleared_setNull _ timeMillis).sound (by omega))

/-- As long as no `dsi` request is refused by `AddEntry`, the users are as many as the collaterals
and the entries no more; whatever is refused, the entries agree in their denominations. -/
theorem session_counted (two : 2 ≤ max) (timeMillis : Int) (calls : List MixingCall)
    (own : ∀ call ∈ calls, OnMasternode max call)
    (accepted : StepRun.AllSteps (mixingStep verifyScript)
      (fun pool call => ¬ call.RefusedEntry pool) (.init timeMillis) calls) :
    let pool := StepRun.run (mixingStep verifyScript) (.init timeMillis) calls
    SessionCounted pool ∧
      (∀ v ∈ pool.entries, ∀ w ∈ pool.entries, getDenominations v.vout = getDenominations w.vout) ∧
      ∀ call, OnMasternode max call →
        (mixingStep verifyScript pool call).entries = [] ∨
          ((mixingStep verifyScript pool call).sessionID = pool.sessionID ∧
            (mixingStep verifyScript pool call).sessionDenom = pool.sessionDenom) := by
  intro pool
  have sound := mixing_run_sound verifyScript two calls own timeMillis
  refine ⟨?_, sound.denominations, fun call own => ?_⟩
  · have both : SessionSound max pool ∧ SessionCounted pool := by
      apply StepRun.AllSteps.invariant
        (P := fun pool call => OnMasternode max call ∧ ¬ call.RefusedEntry pool)
        (I := fun pool => SessionSound max pool ∧ SessionCounted pool)
      · rintro pool call ⟨sound, counted⟩ ⟨own, accepted⟩
        have step := mixingStep_session verifyScript pool call own.1
        rw [own.2] at step
        exact ⟨step.sound two sound, step.counted accepted sound counted⟩
      · exact StepRun.AllSteps.and
          (StepRun.AllSteps.of_forall (fun call member _ => own call member) _) accepted
      · have cleared := CObfuscationPool.cleared_setNull
          ⟨[], .empty, 0, .unknown, 0, 0, [], 0⟩ timeMillis
        exact ⟨cleared.sound (by omega), cleared.counted⟩
    exact both.2
  · have step := mixingStep_session verifyScript pool call own.1
    rw [own.2] at step
    exact step.session_eq_or_empty sound

end Runs

/-! ## A session on a test network -/

/-- `OP_DUP OP_HASH160 <20 bytes> OP_EQUALVERIFY OP_CHECKSIG`. -/
def samplePayment (owner : UInt8) : CScript :=
  [0x76, 0xa9, 20] ++ List.replicate 20 owner ++ [0x88, 0xac]

def sampleMixingCoins : CTransaction where
  hash := 1
  nVersion := 1
  vin := [{ prevout := ⟨5, 0⟩ }]
  vout := [⟨50 * COIN, samplePayment 1⟩, ⟨COIN + 1000, samplePayment 2⟩,
    ⟨COIN + 1000, samplePayment 3⟩]
  nLockTime := 0

def sampleMixingNode : MixingNode where
  fMasterNode := true
  nPoolMaxTransactions := 2
  timeMillis := 1000
  time := 1
  accept := { mixingEnv with
    pcoinsTip := ⟨FlatCoins.empty.put 1
      { vout := sampleMixingCoins.vout, nHeight := 100, nVersion := 1 }, 300⟩ }
  pool := .init
  getTransaction hash := if hash = 1 then some sampleMixingCoins else none
  getHash _ := 9

def sampleDraws : CheckDraws where
  shuffleIn := id
  shuffleOut := id
  shuffleIn_perm _ := .refl _
  outcome := .transmitted

def sampleCollateralTx : CTransaction :=
  ⟨8, 1, [{ prevout := ⟨1, 0⟩ }], [⟨30 * COIN, samplePayment 1⟩], 0, []⟩

def sampleJoin : MixingCall :=
  ⟨sampleMixingNode, sampleDraws, .dsa ⟨true, true, false⟩ 16 sampleCollateralTx 77⟩

/-- An entry that spends an output of `sampleMixingCoins`. -/
def sampleEntry (n nSequence : UInt32) (nAmount : Int) : MixingCall :=
  ⟨sampleMixingNode, sampleDraws,
    .dsi true [{ prevout := ⟨1, n⟩, nSequence }] nAmount sampleCollateralTx
      [⟨COIN + 1000, samplePayment (4 + n.toUInt8)⟩]⟩

def sampleVerify : CScript → CScript → CMutableTransaction → Nat → Bool := fun _ _ _ _ => false

theorem session_counted_sample :
    let pool := StepRun.run (mixingStep sampleVerify) (.init 0)
      [sampleJoin, sampleJoin, sampleEntry 1 0xffffffff (COIN + 1000)]
    SessionCounted pool ∧
      (∀ v ∈ pool.entries, ∀ w ∈ pool.entries, getDenominations v.vout = getDenominations w.vout) ∧
      ∀ call, OnMasternode 2 call →
        (mixingStep sampleVerify pool call).entries = [] ∨
          ((mixingStep sampleVerify pool call).sessionID = pool.sessionID ∧
            (mixingStep sampleVerify pool call).sessionDenom = pool.sessionDenom) := by
  refine session_counted (by decide) 0
    [sampleJoin, sampleJoin, sampleEntry 1 0xffffffff (COIN + 1000)] ?_ ⟨?_, ?_, ?_, trivial⟩
  · intro call member
    simp only [mem_cons, not_mem_nil, or_false] at member
    rcases member with rfl | rfl | rfl
    · exact ⟨rfl, rfl⟩
    · exact ⟨rfl, rfl⟩
    · exact ⟨rfl, rfl⟩
  · exact id
  · exact id
  · rintro ⟨-, -, -, -, refused⟩
    revert refused
    unfold CObfuscationPool.EntryRefused
    decide +kernel

/-- An entry with a negative amount, from anybody: a user is gone, and the collateral is still
there. -/
theorem refused_entry_takes_user :
    (StepRun.run (mixingStep sampleVerify) (.init 0)
        [sampleJoin, sampleJoin, sampleEntry 1 0xffffffff (-1)]).sessionUsers = 1 ∧
      (StepRun.run (mixingStep sampleVerify) (.init 0)
          [sampleJoin, sampleJoin, sampleEntry 1 0xffffffff (-1)]).vecSessionCollateral.length =
        2 := by
  decide +kernel

end Esbcoin
