import Esbcoin.Wallet.SelectCoins

/-!
# The creation of a transaction

Rendering of `CWallet::CreateTransaction` (`src/wallet.cpp:2108-2325`). The loop builds the
transaction again until its fee is enough; what differs from turn to turn besides the fee (the
selection, the key for the change, the signatures, the estimates) is in a `CreateTurn`; which key is
reserved between turns is left to `Wallet/KeyPool`.
-/

namespace Esbcoin

open List

/-- `MIN_SWIFTTX_FEE` (`swifttx.h:38`). -/
def MIN_SWIFTTX_FEE : Int := 10000000

/-- `MAX_STANDARD_TX_SIZE` (`main.h:64`). -/
def MAX_STANDARD_TX_SIZE : Nat := 100000

/-- `MAX_FREE_TRANSACTION_CREATE_SIZE` (`wallet.h:56`). -/
def MAX_FREE_TRANSACTION_CREATE_SIZE : Nat := 1000

/-- What `CreateTransaction` asks besides of the wallet and its settings; a fee rate is its
`nSatoshisPerK`. -/
structure CreateEnv extends CoinsEnv where
  chainHeight : Int
  minRelayTxFee : Int
  payTxFee : Int
  minTxFee : Int
  fPayAtLeastCustomFee : Bool
  maxTxFee : Int
  fSendFreeTransactions : Bool
  /-- The hash of a transaction, which does not look at the field `hash`. -/
  computeHash : CTransaction → UInt256

/-- What a turn of the loop meets. -/
structure CreateTurn where
  chance : Nat → Chance
  /-- The order of a set of pairs of pointers and numbers. -/
  inSet : List Coin → List Coin
  inSet_perm : ∀ coins, (inSet coins).Perm coins
  /-- The key that `GetReservedKey` returns, if it returns one. -/
  reservedKey : Option (List UInt8)
  getRandInt : Nat → Nat
  getRandInt_le : ∀ nMax, getRandInt (nMax + 1) ≤ nMax
  /-- `SignSignature` of an input of a transaction. -/
  signSignature : Coin → CTransaction → Nat → Option CScript
  /-- `estimateFee(nTxConfirmTarget)`. -/
  estimateFee : Int
  /-- The priority is high enough to go without a fee (`wallet.cpp:2295-2303`). -/
  enoughPriority : Bool

/-- How `CreateTransaction` ends. -/
inductive CreateEnd where
  | failed (strFailReason : String)
  /-- `assert(ret)` of the reserved key. -/
  | aborted
  | created (wtxNew : CTransaction) (mapValue : List (String × String)) (nFeeRet : Int)

/-- `CTxOut::IsDust` (`primitives/transaction.h:163-173`). -/
def CTxOut.isDust (chainHeight minRelayTxFee : Int) (out : CTxOut) : Bool :=
  decide (out.nValue < 3 * getFee chainHeight minRelayTxFee (8 + bytesSize out.scriptPubKey + 148))

section Turn

variable (env : CreateEnv) (vecSend : List (CScript × Int)) (coinControl : Option CCoinControl)
  (coin_type : AvailableCoinsType) (useIX : Bool) (nFeePay nValue : Int)

/-- `nValue` of the recipients, unless a sum on the way is negative (`wallet.cpp:2120-2132`). -/
def addAmounts : List (CScript × Int) → Int → Option Int
  | [], nValue => if nValue < 0 then none else some nValue
  | s :: vecSend, nValue => if nValue < 0 then none else addAmounts vecSend (nValue + s.2)

/-- The outputs of a recipient whose amount is split (`wallet.cpp:2173-2179`); the remainder, which
is added without a sign, has the sign of the amount modulo 2^64. -/
def splitOutputs (nSplitBlock : Int) (s : CScript × Int) : List CTxOut :=
  (List.range nSplitBlock.toNat).map fun i : Nat =>
    if (i : Int) = nSplitBlock - 1 then ⟨s.2.tdiv nSplitBlock + s.2.tmod nSplitBlock, s.1⟩
    else ⟨s.2.tdiv nSplitBlock, s.1⟩

/-- The outputs to the recipients (`wallet.cpp:2150-2181`), unless one is dust. -/
def payeeOutputs : Option (List CTxOut) :=
  match coinControl with
  | none => some (vecSend.flatMap (splitOutputs 1))
  | some c =>
    if c.fSplitBlock then some (vecSend.flatMap (splitOutputs c.nSplitBlock))
    else
      vecSend.mapM fun s =>
        let txout : CTxOut := ⟨s.2, s.1⟩
        if txout.isDust env.chainHeight env.minRelayTxFee then none else some txout

/-- The reason where `SelectCoins` fails (`wallet.cpp:2187-2201`). -/
def noCoinsReason : String :=
  (match coin_type with
    | .allCoins => "Insufficient funds."
    | .onlyNotDepositIfMn =>
      "Unable to locate enough funds for this transaction that are not equal MN collateral ESBC."
    | .onlyNonDenominatedNotDepositIfMn =>
      "Unable to locate enough Obfuscation non-denominated funds for this transaction that are " ++
        "not equal MN collateral ESBC."
    | _ =>
      "Unable to locate enough Obfuscation denominated funds for this transaction." ++ " " ++
        "Obfuscation uses exact denominated amounts to send funds, you might simply need to " ++
          "anonymize some more coins.") ++
    if useIX then
      " " ++ "SwiftX requires inputs with at least 6 confirmations, you might need to wait a few " ++
        "minutes and try again."
    else ""

/-- `scriptChange` (`wallet.cpp:2228-2254`). -/
def scriptChange (turn : CreateTurn) : Option CScript :=
  match coinControl.bind CCoinControl.destChange with
  | some destChange => some (getScriptForDestination (some destChange))
  | none => turn.reservedKey.map fun keyID => getScriptForDestination (some (.keyID keyID))

/-- The outputs and `nFeeRet` when the change is made (`wallet.cpp:2215-2271`). -/
def makeChange (turn : CreateTurn) (vout : List CTxOut) (nFeeRet nChange : Int) :
    Option (List CTxOut × Int) :=
  if coin_type = .onlyDenominated then some (vout, nFeeRet + nChange)
  else if nChange > 0 then
    (scriptChange coinControl turn).map fun script =>
      let newTxOut : CTxOut := ⟨nChange, script⟩
      if newTxOut.isDust env.chainHeight env.minRelayTxFee then (vout, nFeeRet + nChange)
      else (vout.insertIdx (turn.getRandInt (vout.length + 1)) newTxOut, nFeeRet)
  else some (vout, nFeeRet)

/-- The loop that signs (`wallet.cpp:2278-2283`). -/
def signCoins (turn : CreateTurn) : List Coin → Nat → CTransaction → Option CTransaction
  | [], _, txNew => some txNew
  | coin :: coins, nIn, txNew =>
    (turn.signSignature coin txNew nIn).bind fun scriptSig =>
      signCoins turn coins (nIn + 1)
        { txNew with vin := txNew.vin.modify nIn fun txin => { txin with scriptSig } }

/-- `GetMinimumFee` (`wallet.cpp:2560-2581`). -/
def getMinimumFee (turn : CreateTurn) (nTxBytes : Nat) : Int :=
  let nFeeNeeded := getFee env.chainHeight env.payTxFee nTxBytes
  let nFeeNeeded :=
    if env.fPayAtLeastCustomFee ∧ nFeeNeeded > 0 ∧
        nFeeNeeded < getFee env.chainHeight env.payTxFee 1000 then
      getFee env.chainHeight env.payTxFee 1000
    else nFeeNeeded
  let nFeeNeeded :=
    if nFeeNeeded = 0 then getFee env.chainHeight turn.estimateFee nTxBytes else nFeeNeeded
  let nFeeNeeded :=
    if nFeeNeeded = 0 then getFee env.chainHeight env.minTxFee nTxBytes else nFeeNeeded
  let nFeeNeeded := max nFeeNeeded (getFee env.chainHeight env.minRelayTxFee nTxBytes)
  min nFeeNeeded env.maxTxFee

/-- How a turn ends: with an outcome, or with another fee. -/
inductive TurnEnd where
  | ends (outcome : CreateEnd)
  | continues (nFeeRet : Int)

/-- The end of a turn for the transaction that is signed (`wallet.cpp:2286-2327`). -/
def finishTurn (turn : CreateTurn) (wtxNew : CTransaction) (nFeeRet : Int) : TurnEnd :=
  let created := CreateEnd.created wtxNew
    (if coin_type = .onlyDenominated then [("DS", "1")] else []) nFeeRet
  let nBytes := wtxNew.getSerializeSize
  if nBytes ≥ MAX_STANDARD_TX_SIZE then .ends (.failed "Transaction too large")
  else if env.fSendFreeTransactions && decide (nBytes ≤ MAX_FREE_TRANSACTION_CREATE_SIZE) &&
      turn.enoughPriority then .ends created
  else
    let nFeeNeeded := max nFeePay (getMinimumFee env turn nBytes)
    if nFeeNeeded < getFee env.chainHeight env.minRelayTxFee nBytes then
      .ends (.failed "Transaction too large for fee policy")
    else if nFeeRet ≥ nFeeNeeded then .ends created
    else .continues nFeeNeeded

/-- One turn of the loop (`wallet.cpp:2142-2329`). -/
def createTurn (turn : CreateTurn) (nFeeRet : Int) : TurnEnd :=
  match payeeOutputs env vecSend coinControl with
  | none => .ends (.failed "Transaction amount too small")
  | some vout =>
    match selectCoins env.toCoinsEnv turn.chance (nValue + nFeeRet) coinControl coin_type useIX with
    | none => .ends (.failed (noCoinsReason coin_type useIX))
    | some selected =>
      let coins := turn.inSet selected.setCoinsRet
      match makeChange env coinControl coin_type turn vout nFeeRet
          (selected.nValueRet - nValue - nFeeRet) with
      | none => .ends .aborted
      | some (vout, nFeeRet) =>
        let txNew : CTransaction :=
          { CTransaction.empty with vin := coins.map fun coin => { prevout := coin.prevout }, vout }
        match signCoins turn coins 0 txNew with
        | none => .ends (.failed "Signing transaction failed")
        | some txNew =>
          finishTurn env coin_type nFeePay turn { txNew with hash := env.computeHash txNew } nFeeRet

/-- The loop (`wallet.cpp:2140-2330`), with the turns from the first on; `none` where it has not
ended after so many turns. -/
def createLoop (turns : Nat → CreateTurn) : Nat → Nat → Int → Option CreateEnd
  | 0, _, _ => none
  | fuel + 1, k, nFeeRet =>
    match createTurn env vecSend coinControl coin_type useIX nFeePay nValue (turns k) nFeeRet with
    | .ends outcome => some outcome
    | .continues nFeeRet => createLoop turns fuel (k + 1) nFeeRet

end Turn

/-- `CWallet::CreateTransaction` (`wallet.cpp:2108-2325`), where it ends within so many turns. -/
def createTransaction (env : CreateEnv) (vecSend : List (CScript × Int))
    (coinControl : Option CCoinControl) (coin_type : AvailableCoinsType) (useIX : Bool)
    (nFeePay : Int) (turns : Nat → CreateTurn) (fuel : Nat) : Option CreateEnd :=
  let nFeePay := if useIX ∧ nFeePay < MIN_SWIFTTX_FEE then MIN_SWIFTTX_FEE else nFeePay
  match addAmounts vecSend 0 with
  | none => some (.failed "Transaction amounts must be positive")
  | some nValue =>
    if vecSend.isEmpty then some (.failed "Transaction amounts must be positive")
    else
      createLoop env vecSend coinControl coin_type useIX nFeePay nValue turns fuel 0
        (if nFeePay > 0 then nFeePay else 0)

/-! ## The change -/

/-- The value of outputs together. -/
def valueOut (vout : List CTxOut) : Int := (vout.map CTxOut.nValue).sum

/-- The change is put between the outputs, or goes into the fee, which is not lowered. -/
theorem makeChange_some {env : CreateEnv} {coinControl : Option CCoinControl}
    {coin_type : AvailableCoinsType} {turn : CreateTurn} {vout vout' : List CTxOut}
    {nFeeRet nFeeRet' nChange : Int} (nonneg : 0 ≤ nChange)
    (made : makeChange env coinControl coin_type turn vout nFeeRet nChange =
      some (vout', nFeeRet')) :
    nFeeRet ≤ nFeeRet' ∧ ∃ change : List CTxOut, change.length ≤ 1 ∧ vout'.Perm (change ++ vout) ∧
      (∀ out ∈ change, 0 ≤ out.nValue ∧ scriptChange coinControl turn = some out.scriptPubKey) ∧
      nFeeRet' + valueOut change = nFeeRet + nChange := by
  unfold makeChange at made
  by_cases denominated : coin_type = .onlyDenominated
  · rw [if_pos denominated] at made
    obtain ⟨rfl, rfl⟩ := Prod.mk.inj (Option.some.inj made)
    exact ⟨by omega, [], Nat.zero_le 1, List.Perm.refl _, by simp, by simp [valueOut]⟩
  rw [if_neg denominated] at made
  by_cases positive : nChange > 0
  · rw [if_pos positive] at made
    obtain ⟨script, pays, same⟩ := Option.map_eq_some_iff.mp made
    dsimp only at same
    split at same
    · obtain ⟨rfl, rfl⟩ := Prod.mk.inj same
      exact ⟨by omega, [], Nat.zero_le 1, List.Perm.refl _, by simp, by simp [valueOut]⟩
    obtain ⟨rfl, rfl⟩ := Prod.mk.inj same
    refine ⟨le_refl _, [⟨nChange, script⟩], le_refl 1, ?_, by simp [nonneg, pays],
      by simp [valueOut]⟩
    exact perm_insertIdx _ _ (turn.getRandInt_le _)
  · rw [if_neg positive] at made
    obtain ⟨rfl, rfl⟩ := Prod.mk.inj (Option.some.inj made)
    refine ⟨le_refl _, [], Nat.zero_le 1, List.Perm.refl _, by simp, ?_⟩
    simp only [valueOut, map_nil, sum_nil]
    omega

/-! ## The loop ends -/

section Ends

variable {env : CreateEnv} {vecSend : List (CScript × Int)} {coinControl : Option CCoinControl}
  {coin_type : AvailableCoinsType} {useIX : Bool} {nFeePay nValue : Int}

theorem getMinimumFee_le (turn : CreateTurn) (nTxBytes : Nat) :
    getMinimumFee env turn nTxBytes ≤ env.maxTxFee := by
  exact min_le_right _ _

/-- What is signed is too large, is what is created, or needs a higher fee. -/
theorem finishTurn_cases (turn : CreateTurn) (wtxNew : CTransaction) (nFeeRet : Int) :
    (∃ reason, finishTurn env coin_type nFeePay turn wtxNew nFeeRet = .ends (.failed reason)) ∨
    (∃ mapValue, finishTurn env coin_type nFeePay turn wtxNew nFeeRet =
      .ends (.created wtxNew mapValue nFeeRet)) ∨
    ∃ next, finishTurn env coin_type nFeePay turn wtxNew nFeeRet = .continues next ∧
      nFeeRet < next ∧ next ≤ max nFeePay env.maxTxFee := by
  unfold finishTurn
  dsimp only
  split
  · exact .inl ⟨_, rfl⟩
  split
  · exact .inr (.inl ⟨_, rfl⟩)
  split
  · exact .inl ⟨_, rfl⟩
  split
  · exact .inr (.inl ⟨_, rfl⟩)
  · rename_i low
    exact .inr (.inr ⟨_, rfl, Int.lt_of_not_ge low, max_le_max_left _ (getMinimumFee_le turn _)⟩)

/-- A turn that neither fails nor aborts finishes a transaction with the coins that it selects. -/
theorem createTurn_finishes {turn : CreateTurn} {nFeeRet : Int} {turnEnd : TurnEnd}
    (ends : createTurn env vecSend coinControl coin_type useIX nFeePay nValue turn nFeeRet =
      turnEnd)
    (succeeds : ∀ reason, turnEnd ≠ .ends (.failed reason)) (goesOn : turnEnd ≠ .ends .aborted) :
    ∃ payees selected vout nFeeMade signed,
      payeeOutputs env vecSend coinControl = some payees ∧
      selectCoins env.toCoinsEnv turn.chance (nValue + nFeeRet) coinControl coin_type useIX =
        some selected ∧
      makeChange env coinControl coin_type turn payees nFeeRet
        (selected.nValueRet - nValue - nFeeRet) = some (vout, nFeeMade) ∧
      signCoins turn (turn.inSet selected.setCoinsRet) 0 { CTransaction.empty with
        vin := (turn.inSet selected.setCoinsRet).map fun coin => { prevout := coin.prevout }
        vout } = some signed ∧
      finishTurn env coin_type nFeePay turn { signed with hash := env.computeHash signed }
        nFeeMade = turnEnd := by
  unfold createTurn at ends
  split at ends
  · exact absurd ends.symm (succeeds _)
  rename_i payees pays
  split at ends
  · exact absurd ends.symm (succeeds _)
  rename_i selected selects
  dsimp only at ends
  split at ends
  · exact absurd ends.symm goesOn
  rename_i vout nFeeMade made
  split at ends
  · exact absurd ends.symm (succeeds _)
  rename_i signed signs
  exact ⟨payees, selected, vout, nFeeMade, signed, pays, selects, made, signs, ends⟩

/-- Another turn has a higher fee, which is no higher than it may be. -/
theorem createTurn_continues {turn : CreateTurn} {nFeeRet next : Int}
    (continues : createTurn env vecSend coinControl coin_type useIX nFeePay nValue turn nFeeRet =
      .continues next) : nFeeRet < next ∧ next ≤ max nFeePay env.maxTxFee := by
  obtain ⟨payees, selected, vout, nFeeMade, signed, -, selects, made, -, ends⟩ :=
    createTurn_finishes continues (fun _ => nofun) nofun
  have enough := (selectCoins_reaches selects).enough
  have raised := (makeChange_some (by omega) made).1
  obtain ⟨reason, fails⟩ | ⟨mapValue, creates⟩ | ⟨higher, goesOn, above, bound⟩ :=
    @finishTurn_cases env coin_type nFeePay turn { signed with hash := env.computeHash signed }
      nFeeMade
  · cases fails.symm.trans ends
  · cases creates.symm.trans ends
  · obtain rfl := TurnEnd.continues.inj (goesOn.symm.trans ends)
    exact ⟨raised.trans_lt above, bound⟩

theorem createLoop_ends (turns : Nat → CreateTurn) {fuel k : Nat} {nFeeRet : Int}
    (enough : (max nFeePay env.maxTxFee - nFeeRet).toNat < fuel) :
    (createLoop env vecSend coinControl coin_type useIX nFeePay nValue turns fuel k
      nFeeRet).isSome = true := by
  induction fuel generalizing k nFeeRet with
  | zero => omega
  | succ fuel ih =>
    rw [createLoop]
    split
    · rfl
    · rename_i next continues
      obtain ⟨higher, bound⟩ := createTurn_continues continues
      exact ih (by omega)

/-- More turns make no difference to a loop that has ended. -/
theorem createLoop_mono {turns : Nat → CreateTurn} {fuel more k : Nat} {nFeeRet : Int}
    {outcome : CreateEnd} (le : fuel ≤ more)
    (ends : createLoop env vecSend coinControl coin_type useIX nFeePay nValue turns fuel k nFeeRet =
      some outcome) :
    createLoop env vecSend coinControl coin_type useIX nFeePay nValue turns more k nFeeRet =
      some outcome := by
  induction fuel generalizing more k nFeeRet with
  | zero => cases ends
  | succ fuel ih =>
    obtain ⟨more, rfl⟩ : ∃ n, more = n + 1 := ⟨more - 1, by omega⟩
    rw [createLoop] at ends ⊢
    split at ends
    · exact ends
    · exact ih (by omega) ends

end Ends

/-! ## The transaction balances -/

/-- What the outputs pay to a script. -/
def paidTo (vout : List CTxOut) (script : CScript) : Int :=
  ((vout.filter fun out => out.scriptPubKey = script).map CTxOut.nValue).sum

/-- What is asked to be paid to a script. -/
def askedFor (vecSend : List (CScript × Int)) (script : CScript) : Int :=
  ((vecSend.filter fun s => s.1 = script).map Prod.snd).sum

theorem paidTo_append (vout vout' : List CTxOut) (script : CScript) :
    paidTo (vout ++ vout') script = paidTo vout script + paidTo vout' script := by
  simp [paidTo]

theorem valueOut_append (vout vout' : List CTxOut) :
    valueOut (vout ++ vout') = valueOut vout + valueOut vout' := by
  simp [valueOut]

theorem paidTo_perm {vout vout' : List CTxOut} (perm : vout.Perm vout') (script : CScript) :
    paidTo vout script = paidTo vout' script :=
  ((perm.filter _).map _).sum_eq

theorem valueOut_perm {vout vout' : List CTxOut} (perm : vout.Perm vout') :
    valueOut vout = valueOut vout' :=
  (perm.map _).sum_eq

theorem valueOut_nonneg {vout : List CTxOut} (nonneg : ∀ out ∈ vout, 0 ≤ out.nValue) :
    0 ≤ valueOut vout := by
  refine sum_nonneg fun value member => ?_
  obtain ⟨out, inside, rfl⟩ := mem_map.mp member
  exact nonneg out inside

/-- Outputs to the script of a recipient, worth its amount, none of them negative if that is not. -/
structure Deals (deal : CScript × Int → List CTxOut) : Prop where
  scripts : ∀ s, ∀ out ∈ deal s, out.scriptPubKey = s.1
  value : ∀ s, valueOut (deal s) = s.2
  nonneg : ∀ s, 0 ≤ s.2 → ∀ out ∈ deal s, 0 ≤ out.nValue

theorem deals_whole : Deals fun s => [⟨s.2, s.1⟩] where
  scripts := by simp
  value := by simp [valueOut]
  nonneg := by simp

theorem deals_splitOutputs {nSplitBlock : Int} (some : 1 ≤ nSplitBlock) :
    Deals (splitOutputs nSplitBlock) where
  scripts s out member := by
    obtain ⟨i, -, rfl⟩ := mem_map.mp member
    split <;> rfl
  value s := by
    obtain ⟨m, rfl⟩ : ∃ m : Nat, nSplitBlock = m + 1 := ⟨(nSplitBlock - 1).toNat, by omega⟩
    have parts := Int.mul_tdiv_add_tmod s.2 ((m : Int) + 1)
    have early : ∀ i ∈ List.range m, (if (i : Int) = (m : Int) + 1 - 1 then
        (⟨s.2.tdiv (m + 1) + s.2.tmod (m + 1), s.1⟩ : CTxOut) else ⟨s.2.tdiv (m + 1), s.1⟩) =
        ⟨s.2.tdiv (m + 1), s.1⟩ := by
      intro i member
      have less := mem_range.mp member
      rw [if_neg (by omega)]
    rw [splitOutputs, show ((m : Int) + 1).toNat = m + 1 by omega, range_succ, map_append,
      valueOut_append, map_congr_left early]
    simp only [valueOut, map_const', map_replicate, sum_replicate, length_range,
      map_cons, map_nil, sum_cons, sum_nil,
      if_pos (show (m : Int) = m + 1 - 1 by omega)]
    calc (m : Int) * s.2.tdiv (m + 1) + (s.2.tdiv (m + 1) + s.2.tmod (m + 1) + 0)
        = (m + 1) * s.2.tdiv (m + 1) + s.2.tmod (m + 1) := by ring
      _ = s.2 := parts
  nonneg s amount out member := by
    have quotient : 0 ≤ s.2.tdiv nSplitBlock := Int.tdiv_nonneg amount (by omega)
    have remainder : 0 ≤ s.2.tmod nSplitBlock := Int.tmod_nonneg _ amount
    obtain ⟨i, -, rfl⟩ := mem_map.mp member
    split
    · exact Int.add_nonneg quotient remainder
    · exact quotient

section Payees

variable {env : CreateEnv} {vecSend : List (CScript × Int)} {coinControl : Option CCoinControl}
  {vout : List CTxOut}

/-- The recipients are dealt their outputs one after the other. -/
theorem payeeOutputs_eq (counted : ∀ c, coinControl = some c → 1 ≤ c.nSplitBlock)
    (pays : payeeOutputs env vecSend coinControl = some vout) :
    ∃ deal, Deals deal ∧ vout = vecSend.flatMap deal := by
  unfold payeeOutputs at pays
  cases coinControl with
  | none =>
    obtain rfl := Option.some.inj pays
    exact ⟨_, deals_splitOutputs (le_refl 1), rfl⟩
  | some c =>
    dsimp only at pays
    by_cases split : c.fSplitBlock = true
    · rw [if_pos split] at pays
      obtain rfl := Option.some.inj pays
      exact ⟨_, deals_splitOutputs (counted c rfl), rfl⟩
    rw [if_neg split] at pays
    refine ⟨_, deals_whole, ?_⟩
    induction vecSend generalizing vout with
    | nil =>
      obtain rfl := Option.some.inj pays
      rfl
    | cons s vecSend ih =>
      rw [mapM_cons] at pays
      obtain ⟨out, first, pays⟩ := Option.bind_eq_some_iff.mp pays
      obtain ⟨rest, others, same⟩ := Option.bind_eq_some_iff.mp pays
      obtain rfl := Option.some.inj same
      split at first
      · cases first
      · obtain rfl := Option.some.inj first
        rw [ih others]
        rfl

variable {deal : CScript × Int → List CTxOut}

theorem Deals.paidTo_eq (deals : Deals deal) (s : CScript × Int) (script : CScript) :
    paidTo (deal s) script = if s.1 = script then s.2 else 0 := by
  have scripts := deals.scripts s
  unfold paidTo
  split
  · rename_i same
    have all : (deal s).filter (fun out => out.scriptPubKey = script) = deal s := by
      rw [filter_eq_self]
      intro out member
      exact decide_eq_true ((scripts out member).trans same)
    rw [all]
    exact deals.value s
  rename_i other
  have none : (deal s).filter (fun out => out.scriptPubKey = script) = [] := by
    rw [filter_eq_nil_iff]
    intro out member same
    exact other ((scripts out member).symm.trans (of_decide_eq_true same))
  rw [none]
  rfl

theorem Deals.paidTo_flatMap (deals : Deals deal) (script : CScript) :
    paidTo (vecSend.flatMap deal) script = askedFor vecSend script := by
  induction vecSend with
  | nil => rfl
  | cons s vecSend ih =>
    rw [flatMap_cons, paidTo_append, ih, deals.paidTo_eq]
    by_cases same : s.1 = script
    · simp [askedFor, same]
    · simp [askedFor, same]

theorem Deals.valueOut_flatMap (deals : Deals deal) :
    valueOut (vecSend.flatMap deal) = (vecSend.map Prod.snd).sum := by
  induction vecSend with
  | nil => rfl
  | cons s vecSend ih =>
    rw [flatMap_cons, valueOut_append, ih, deals.value, map_cons, sum_cons]

/-- An amount that is negative makes an output that is. -/
theorem Deals.nonneg_iff (deals : Deals deal) :
    (∀ out ∈ vecSend.flatMap deal, 0 ≤ out.nValue) ↔ ∀ s ∈ vecSend, 0 ≤ s.2 := by
  constructor
  · intro nonneg s member
    rw [← deals.value s]
    exact valueOut_nonneg fun out inside => nonneg out (mem_flatMap.mpr ⟨s, member, inside⟩)
  · intro amounts out member
    obtain ⟨s, inside, dealt⟩ := mem_flatMap.mp member
    exact deals.nonneg s (amounts s inside) out dealt

end Payees

section Balances

variable {env : CreateEnv} {vecSend : List (CScript × Int)} {coinControl : Option CCoinControl}
  {coin_type : AvailableCoinsType} {useIX : Bool} {nFeePay nValue nFeeRet nFeeRet' : Int}
  {turn : CreateTurn} {wtxNew : CTransaction} {mapValue : List (String × String)}

theorem map_prevout_modify (vin : List CTxIn) (nIn : Nat) (scriptSig : CScript) :
    (vin.modify nIn fun txin => { txin with scriptSig }).map CTxIn.prevout =
      vin.map CTxIn.prevout := by
  induction vin generalizing nIn with
  | nil => cases nIn <;> rfl
  | cons txin vin ih =>
    cases nIn with
    | zero => rfl
    | succ nIn => simp [ih]

/-- To sign changes no outpoint and no output. -/
theorem signCoins_some {coins : List Coin} {nIn : Nat} {txNew signed : CTransaction}
    (signs : signCoins turn coins nIn txNew = some signed) :
    signed.prevouts = txNew.prevouts ∧ signed.vout = txNew.vout := by
  induction coins generalizing nIn txNew with
  | nil =>
    obtain rfl := Option.some.inj signs
    exact ⟨rfl, rfl⟩
  | cons coin coins ih =>
    obtain ⟨scriptSig, -, signs⟩ := Option.bind_eq_some_iff.mp signs
    obtain ⟨prevouts, vout⟩ := ih signs
    exact ⟨prevouts.trans (map_prevout_modify txNew.vin nIn scriptSig), vout⟩

/-- The coins that `CreateTransaction` may spend. -/
def walletCoins (env : CreateEnv) (coinControl : Option CCoinControl)
    (coin_type : AvailableCoinsType) (useIX : Bool) : List Coin :=
  (availableCoins env.toCoinsEnv true coinControl false coin_type useIX).map COutput.toCoin

/-- Every script gets what is asked for it, besides the change; the inputs are distinct coins of
the wallet, and what they are worth more than the outputs is the fee. -/
structure Balances (env : CreateEnv) (vecSend : List (CScript × Int))
    (coinControl : Option CCoinControl) (coin_type : AvailableCoinsType) (useIX : Bool)
    (turn : CreateTurn) (wtxNew : CTransaction) (nFeeRet : Int) : Prop where
  paid : ∃ change : List CTxOut, change.length ≤ 1 ∧
    (∀ out ∈ change, out ∈ wtxNew.vout ∧ scriptChange coinControl turn = some out.scriptPubKey) ∧
    ∀ script, paidTo wtxNew.vout script = askedFor vecSend script + paidTo change script
  inputs : ∃ coins : List Coin, (∀ coin ∈ coins, coin ∈ walletCoins env coinControl coin_type useIX) ∧
    wtxNew.prevouts = coins.map Coin.prevout ∧ wtxNew.prevouts.Nodup ∧
    totalValue coins - valueOut wtxNew.vout = nFeeRet

/-- The amounts add up, to a sum that is not negative. -/
theorem addAmounts_some {nValue' : Int} (adds : addAmounts vecSend nValue = some nValue') :
    nValue' = nValue + (vecSend.map Prod.snd).sum ∧ 0 ≤ nValue' := by
  induction vecSend generalizing nValue with
  | nil =>
    rw [addAmounts] at adds
    split at adds
    · cases adds
    · obtain rfl := Option.some.inj adds
      exact ⟨by simp, by omega⟩
  | cons s vecSend ih =>
    rw [addAmounts] at adds
    split at adds
    · cases adds
    · obtain ⟨sum, nonneg⟩ := ih adds
      refine ⟨?_, nonneg⟩
      rw [sum, map_cons, sum_cons, Int.add_assoc]

theorem spends_selected {selected : Selection} {nTargetValue : Int} {spends : List COutPoint}
    {fee value : Int}
    (reached : selected.Reaches (walletCoins env coinControl coin_type useIX) nTargetValue)
    (turn : CreateTurn) (inputs : spends = (turn.inSet selected.setCoinsRet).map Coin.prevout)
    (balance : selected.nValueRet - value = fee) :
    ∃ coins : List Coin, (∀ coin ∈ coins, coin ∈ walletCoins env coinControl coin_type useIX) ∧
      spends = coins.map Coin.prevout ∧ spends.Nodup ∧ totalValue coins - value = fee := by
  have order := turn.inSet_perm selected.setCoinsRet
  have mine : ∀ coin ∈ turn.inSet selected.setCoinsRet,
      coin ∈ walletCoins env coinControl coin_type useIX := fun coin member =>
    reached.among coin (order.mem_iff.mp member)
  have filed : ∀ coin ∈ turn.inSet selected.setCoinsRet,
      env.mapWallet.lookup coin.tx.getHash = some coin.tx := by
    intro coin member
    obtain ⟨out, listed, rfl⟩ := mem_map.mp (mine coin member)
    exact mem_availableCoins listed
  refine ⟨turn.inSet selected.setCoinsRet, mine, inputs, ?_, ?_⟩
  · rw [inputs]
    refine List.Nodup.map_on ?_ (order.nodup_iff.mpr reached.distinct)
    intro coin member coin' member' same
    exact prevout_injective (filed coin member) (filed coin' member') same
  have total : totalValue (turn.inSet selected.setCoinsRet) = totalValue selected.setCoinsRet :=
    (order.map _).sum_eq
  rw [total, ← reached.total]
  exact balance

/-- A turn that creates a transaction balances it, with an output that is negative where an amount
is. -/
theorem createTurn_created (counted : ∀ c, coinControl = some c → 1 ≤ c.nSplitBlock)
    (sum : nValue = (vecSend.map Prod.snd).sum)
    (ends : createTurn env vecSend coinControl coin_type useIX nFeePay nValue turn nFeeRet =
      .ends (.created wtxNew mapValue nFeeRet')) :
    Balances env vecSend coinControl coin_type useIX turn wtxNew nFeeRet' ∧
      ((∀ out ∈ wtxNew.vout, 0 ≤ out.nValue) ↔ ∀ s ∈ vecSend, 0 ≤ s.2) := by
  obtain ⟨payees, selected, vout, nFeeMade, signed, pays, selects, made, signs, ends⟩ :=
    createTurn_finishes ends (fun _ => nofun) nofun
  obtain ⟨reason, fails⟩ | ⟨mapValue', creates⟩ | ⟨higher, goesOn, -⟩ :=
    @finishTurn_cases env coin_type nFeePay turn { signed with hash := env.computeHash signed }
      nFeeMade
  · cases fails.symm.trans ends
  · obtain ⟨rfl, rfl, rfl⟩ := CreateEnd.created.inj (TurnEnd.ends.inj (creates.symm.trans ends))
    have reached := selectCoins_reaches selects
    obtain ⟨deal, deals, rfl⟩ := payeeOutputs_eq counted pays
    have enough := reached.enough
    obtain ⟨-, change, single, perm, positive, balance⟩ := makeChange_some (by omega) made
    obtain ⟨prevouts, outputs⟩ := signCoins_some signs
    have same : ∀ {out}, out ∈ signed.vout ↔ out ∈ change ∨ out ∈ vecSend.flatMap deal := by
      intro out
      rw [outputs, perm.mem_iff, mem_append]
    refine ⟨⟨⟨change, single, fun out member => ?_, fun script => ?_⟩, ?_⟩, ?_⟩
    · exact ⟨same.mpr (Or.inl member), (positive out member).2⟩
    · have paid := paidTo_perm perm script
      rw [paidTo_append, deals.paidTo_flatMap, Int.add_comm] at paid
      exact outputs ▸ paid
    · refine spends_selected reached turn (prevouts.trans ?_) ?_
      · simp [CTransaction.prevouts]
      have value := valueOut_perm perm
      rw [valueOut_append, deals.valueOut_flatMap, ← sum] at value
      rw [outputs, value]
      omega
    · rw [← deals.nonneg_iff]
      constructor
      · intro nonneg out member
        exact nonneg out (same.mpr (Or.inr member))
      intro nonneg out member
      rcases same.mp member with ours | theirs
      · exact (positive out ours).1
      · exact nonneg out theirs
  · cases goesOn.symm.trans ends

theorem createLoop_created {turns : Nat → CreateTurn} {fuel k : Nat}
    (ends : createLoop env vecSend coinControl coin_type useIX nFeePay nValue turns fuel k nFeeRet =
      some (.created wtxNew mapValue nFeeRet')) :
    ∃ k nFee, createTurn env vecSend coinControl coin_type useIX nFeePay nValue (turns k) nFee =
      .ends (.created wtxNew mapValue nFeeRet') := by
  induction fuel generalizing k nFeeRet with
  | zero => cases ends
  | succ fuel ih =>
    rw [createLoop] at ends
    split at ends
    · rename_i outcome last
      obtain rfl := Option.some.inj ends
      exact ⟨k, nFeeRet, last⟩
    · exact ih ends

end Balances

def tenCoins : CreateEnv where
  mapWallet := AList.insert 1 (soleOutput 1 (10 * COIN)).tx ∅
  keyed hash tx found := by
    by_cases same : hash = 1
    · subst same
      rw [AList.lookup_insert] at found
      exact congrArg CTransaction.hash (Option.some.inj found).symm
    · rw [AList.lookup_insert_ne same] at found
      cases found
  numbered hash tx found := by
    by_cases same : hash = 1
    · subst same
      rw [AList.lookup_insert] at found
      obtain rfl := Option.some.inj found
      decide
    · rw [AList.lookup_insert_ne same] at found
      cases found
  checkFinalTx _ := true
  isTrusted _ := true
  getBlocksToMaturity _ := 0
  getDepthInMainChain _ := 10
  inMempool _ := false
  isFromMe _ := false
  isMine _ := .spendable
  isSpent _ _ := false
  isLockedCoin _ _ := false
  fMasterNode := false
  isDepositCoins _ := false
  getInputObfuscationRounds _ := -2
  nObfuscationRounds := 2
  bSpendZeroConfChange := true
  chainHeight := 0
  minRelayTxFee := 10000
  payTxFee := 0
  minTxFee := 10000
  fPayAtLeastCustomFee := true
  maxTxFee := COIN
  fSendFreeTransactions := false
  computeHash _ := 2

/-- A turn with an order, a key and a signature for everything. -/
def CreateTurn.plain : CreateTurn where
  chance _ := .plain true
  inSet := id
  inSet_perm := List.Perm.refl
  reservedKey := some [7]
  getRandInt _ := 0
  getRandInt_le _ := Nat.zero_le _
  signSignature _ _ _ := some [8]
  estimateFee := 0
  enoughPriority := false

end Esbcoin
