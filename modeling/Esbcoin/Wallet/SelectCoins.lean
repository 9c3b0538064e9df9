import Esbcoin.Wallet.CoinSelection
import Mathlib.Data.List.Flatten

/-!
# The coins of the wallet

Rendering of `CWallet::AvailableCoins` and `CWallet::SelectCoins` (`src/wallet.cpp:1441-1514,
1760-1815`). What the wallet and the chain say of a transaction is asked of a `CoinsEnv`.
-/

namespace Esbcoin

open COutput List

/-- `isminetype` (`wallet_ismine.h:16-24`), without the union `ISMINE_ALL`. -/
inductive IsMineType where
  | no
  | watchOnly
  | multisig
  | spendable
deriving DecidableEq

/-- `AvailableCoinsType` (`wallet.h:72-79`). -/
inductive AvailableCoinsType where
  | allCoins
  | onlyDenominated
  | onlyNotDepositIfMn
  | onlyNonDenominatedNotDepositIfMn
  | onlyDeposit
  | stakableCoins
deriving DecidableEq

/-- The fields of `CCoinControl` (`coincontrol.h:13-99`) that are read here. -/
structure CCoinControl where
  destChange : Option CTxDestination := none
  fSplitBlock : Bool := false
  nSplitBlock : Int := 1
  fAllowOtherInputs : Bool := false
  setSelected : List COutPoint := []

/-- `CCoinControl::HasSelected`. -/
def CCoinControl.hasSelected (coinControl : CCoinControl) : Bool := !coinControl.setSelected.isEmpty

/-- `IsCollateralAmount` (`wallet.cpp:2037-2040`). -/
def isCollateralAmount (nInputAmount : Int) : Bool :=
  decide (nInputAmount ≠ 0) && decide (nInputAmount.tmod OBFUSCATION_COLLATERAL = 0) &&
    decide (nInputAmount < OBFUSCATION_COLLATERAL * 5) &&
    decide (nInputAmount > OBFUSCATION_COLLATERAL)

/-- What the wallet and the chain say of transactions. -/
structure CoinsEnv where
  mapWallet : AssocMap UInt256 CTransaction
  keyed : ∀ hash tx, mapWallet.lookup hash = some tx → tx.getHash = hash
  /-- The outputs of a transaction are numbered by an `unsigned int`. -/
  numbered : ∀ hash tx, mapWallet.lookup hash = some tx → tx.vout.length ≤ 2 ^ 32
  checkFinalTx : CTransaction → Bool
  isTrusted : CTransaction → Bool
  getBlocksToMaturity : CTransaction → Int
  getDepthInMainChain : CTransaction → Int
  inMempool : CTransaction → Bool
  /-- `IsFromMe(ISMINE_ALL)`. -/
  isFromMe : CTransaction → Bool
  isMine : CTxOut → IsMineType
  isSpent : UInt256 → Nat → Bool
  isLockedCoin : UInt256 → Nat → Bool
  fMasterNode : Bool
  /-- `CMasternode::IsDepositCoins` of a value. -/
  isDepositCoins : Int → Bool
  /-- `GetInputObfuscationRounds`. -/
  getInputObfuscationRounds : COutPoint → Int
  nObfuscationRounds : Int
  bSpendZeroConfChange : Bool

variable (env : CoinsEnv)

/-- Is an amount of the type that is asked for (`wallet.cpp:1472-1486`)? -/
def foundAmount (nCoinType : AvailableCoinsType) (nValue : Int) : Bool :=
  match nCoinType with
  | .onlyDenominated => isDenominatedAmount nValue
  | .onlyNotDepositIfMn => !(env.fMasterNode && env.isDepositCoins nValue)
  | .onlyNonDenominatedNotDepositIfMn =>
    !isCollateralAmount nValue && !isDenominatedAmount nValue &&
      !(env.fMasterNode && env.isDepositCoins nValue)
  | .onlyDeposit => env.isDepositCoins nValue
  | _ => true

/-- One turn of the loop over the outputs (`wallet.cpp:1470-1506`). -/
def availableOutput (coinControl : Option CCoinControl) (fIncludeZeroValue : Bool)
    (nCoinType : AvailableCoinsType) (tx : CTransaction) (i : Fin tx.vout.length) :
    Option COutput :=
  let out := tx.vout.get i
  let mine := env.isMine out
  if !foundAmount env nCoinType out.nValue then none
  else if env.isSpent tx.getHash i then none
  else if mine = .no then none
  else if mine = .watchOnly then none
  else if env.isLockedCoin tx.getHash i && nCoinType != .onlyDeposit then none
  else if out.nValue ≤ 0 ∧ fIncludeZeroValue = false then none
  else if coinControl.any fun c => c.hasSelected && !c.fAllowOtherInputs &&
      !c.setSelected.contains ⟨tx.getHash, UInt32.ofNat i⟩ then none
  else
    some {
      tx
      i
      inside := i.isLt
      nDepth := env.getDepthInMainChain tx
      fSpendable := decide (mine = .spendable ∨ mine = .multisig) }

/-- Is a transaction passed over (`wallet.cpp:1451-1468`)? -/
def skipsTx (fOnlyConfirmed fUseIX : Bool) (tx : CTransaction) : Bool :=
  let nDepth := env.getDepthInMainChain tx
  !env.checkFinalTx tx || (fOnlyConfirmed && !env.isTrusted tx) ||
    ((tx.isCoinBase || tx.isCoinStake) && decide (env.getBlocksToMaturity tx > 0)) ||
    (fUseIX && decide (nDepth < 6)) || (decide (nDepth = 0) && !env.inMempool tx)

/-- The outputs of a transaction that `AvailableCoins` lists. -/
def availableOutputs (fOnlyConfirmed : Bool) (coinControl : Option CCoinControl)
    (fIncludeZeroValue : Bool) (nCoinType : AvailableCoinsType) (fUseIX : Bool)
    (tx : CTransaction) : List COutput :=
  if skipsTx env fOnlyConfirmed fUseIX tx then []
  else (List.finRange tx.vout.length).filterMap
    (availableOutput env coinControl fIncludeZeroValue nCoinType tx)

/-- `CWallet::AvailableCoins` (`wallet.cpp:1441-1514`). -/
def availableCoins (fOnlyConfirmed : Bool) (coinControl : Option CCoinControl)
    (fIncludeZeroValue : Bool) (nCoinType : AvailableCoinsType) (fUseIX : Bool) : List COutput :=
  env.mapWallet.entries.flatMap fun entry =>
    availableOutputs env fOnlyConfirmed coinControl fIncludeZeroValue nCoinType fUseIX entry.2

/-- The outpoint of a coin. -/
def Coin.prevout (coin : Coin) : COutPoint := ⟨coin.tx.getHash, UInt32.ofNat coin.i⟩

/-- One turn over the coins that coin control has selected (`wallet.cpp:1769-1781`). -/
def takeSelected (coin_type : AvailableCoinsType) (s : Selection) (out : COutput) : Selection :=
  if !out.fSpendable then s
  else if coin_type = .onlyDenominated ∧
      env.getInputObfuscationRounds out.prevout < env.nObfuscationRounds then s
  else s.insert out.toCoin

/-- One turn over the coins of the denomination `v` (`wallet.cpp:1789-1799`). Between the values of
coins `0.1 * COIN` is ten million exactly. -/
def takeDenominated (nTargetValue v : Int) (s : Selection) (out : COutput) : Selection :=
  if out.nValue = v ∧ s.nValueRet + out.nValue < nTargetValue + 10000000 + 100 then
    if env.getInputObfuscationRounds out.prevout < env.nObfuscationRounds then s
    else s.insert out.toCoin
  else s

/-- `CWallet::SelectCoins` (`wallet.cpp:1760-1815`): `setCoinsRet` and `nValueRet` where it returns
`true`. Each of the three selections has a chance of its own. -/
def selectCoins (chance : Nat → Chance) (nTargetValue : Int) (coinControl : Option CCoinControl)
    (coin_type : AvailableCoinsType) (useIX : Bool) : Option Selection :=
  let vCoins := availableCoins env true coinControl false coin_type useIX
  if coinControl.any CCoinControl.hasSelected then
    let s := vCoins.foldl (takeSelected env coin_type) {}
    if s.nValueRet ≥ nTargetValue then some s else none
  else if coin_type = .onlyDenominated then
    let s := obfuScationDenominations.foldl
      (fun s v => vCoins.foldl (takeDenominated env nTargetValue v) s) {}
    if s.nValueRet ≥ nTargetValue then some s else none
  else
    (selectCoinsMinConf env.isFromMe nTargetValue 1 6 (chance 0) vCoins).or <|
      (selectCoinsMinConf env.isFromMe nTargetValue 1 1 (chance 1) vCoins).or <|
        if env.bSpendZeroConfChange then
          selectCoinsMinConf env.isFromMe nTargetValue 0 1 (chance 2) vCoins
        else none

/-! ## Every coin once -/

section Distinct

variable {env : CoinsEnv} {coinControl : Option CCoinControl} {nCoinType : AvailableCoinsType}
  {fOnlyConfirmed fIncludeZeroValue fUseIX : Bool}

theorem availableOutput_some {tx : CTransaction} {i : Fin tx.vout.length} {out : COutput}
    (found : availableOutput env coinControl fIncludeZeroValue nCoinType tx i = some out) :
    out.toCoin = ⟨tx, i, i.isLt⟩ := by
  unfold availableOutput at found
  dsimp only at found
  repeat (split at found; · cases found)
  obtain rfl := Option.some.inj found
  rfl

theorem tx_of_mem_availableOutputs {tx : CTransaction} {out : COutput}
    (listed : out ∈ availableOutputs env fOnlyConfirmed coinControl fIncludeZeroValue nCoinType
      fUseIX tx) : out.tx = tx := by
  unfold availableOutputs at listed
  split at listed
  · cases listed
  · obtain ⟨i, -, available⟩ := mem_filterMap.mp listed
    exact congrArg Coin.tx (availableOutput_some available)

theorem mem_availableCoins {out : COutput}
    (listed : out ∈ availableCoins env fOnlyConfirmed coinControl fIncludeZeroValue nCoinType
      fUseIX) : env.mapWallet.lookup out.tx.getHash = some out.tx := by
  obtain ⟨entry, inside, listed⟩ := mem_flatMap.mp listed
  have found : env.mapWallet.lookup entry.1 = some entry.2 := AList.mem_lookup_iff.mpr inside
  rw [tx_of_mem_availableOutputs listed, env.keyed _ _ found]
  exact found

/-- No coin is listed twice. -/
theorem availableCoins_distinct :
    ((availableCoins env fOnlyConfirmed coinControl fIncludeZeroValue nCoinType fUseIX).map
      toCoin).Nodup := by
  unfold availableCoins
  rw [map_flatMap, nodup_flatMap]
  constructor
  · intro entry _
    unfold availableOutputs
    split
    · exact nodup_nil
    rw [map_filterMap]
    refine (nodup_finRange _).filterMap fun i j coin first second => ?_
    obtain ⟨out, available, rfl⟩ := Option.map_eq_some_iff.mp first
    obtain ⟨out', available', same⟩ := Option.map_eq_some_iff.mp second
    rw [availableOutput_some available, availableOutput_some available'] at same
    exact (Fin.ext (congrArg Coin.i same)).symm
  -- Transactions under different hashes are different.
  have keys : env.mapWallet.entries.Pairwise fun a b => a.1 ≠ b.1 :=
    pairwise_map.mp env.mapWallet.nodupKeys
  refine List.Pairwise.imp_of_mem (fun {a b} inside inside' apart coin member member' => ?_) keys
  obtain ⟨out, listed, rfl⟩ := mem_map.mp member
  obtain ⟨out', listed', same⟩ := mem_map.mp member'
  apply apart
  rw [← env.keyed _ _ (AList.mem_lookup_iff.mpr inside),
    ← env.keyed _ _ (AList.mem_lookup_iff.mpr inside'), ← tx_of_mem_availableOutputs listed,
    ← tx_of_mem_availableOutputs listed', same]

/-- Distinct coins of the wallet have distinct outpoints. -/
theorem prevout_injective {coin coin' : Coin}
    (filed : env.mapWallet.lookup coin.tx.getHash = some coin.tx)
    (filed' : env.mapWallet.lookup coin'.tx.getHash = some coin'.tx)
    (same : coin.prevout = coin'.prevout) : coin = coin' := by
  obtain ⟨tx, i, inside⟩ := coin
  obtain ⟨tx', i', inside'⟩ := coin'
  obtain ⟨hash, n⟩ := COutPoint.mk.inj same
  have txs : tx = tx' := by
    rw [hash] at filed
    exact Option.some.inj (filed.symm.trans filed')
  subst txs
  have few := env.numbered _ _ filed
  have numbers := congrArg UInt32.toNat n
  dsimp only at few numbers
  rw [UInt32.toNat_ofNat', UInt32.toNat_ofNat', Nat.mod_eq_of_lt (by omega),
    Nat.mod_eq_of_lt (by omega)] at numbers
  subst numbers
  rfl

end Distinct

/-! ## What is selected -/

/-- The coins are distinct and their value is kept. -/
structure Selection.Sums (s : Selection) : Prop where
  distinct : s.setCoinsRet.Nodup
  total : s.nValueRet = totalValue s.setCoinsRet

theorem Selection.Sums.insert {s : Selection} (sums : s.Sums) {coin : Coin}
    (new : coin ∉ s.setCoinsRet) : (s.insert coin).Sums := by
  unfold Selection.insert
  rw [if_neg new]
  refine ⟨?_, ?_⟩
  · exact nodup_append.mpr ⟨sums.distinct, nodup_singleton coin, fun a member b last same =>
      new (by rwa [← mem_singleton.mp last, ← same])⟩
  · simp [sums.total, totalValue]

theorem Selection.mem_insert {s : Selection} {coin c : Coin} :
    c ∈ (s.insert coin).setCoinsRet ↔ c ∈ s.setCoinsRet ∨ c = coin := by
  unfold Selection.insert
  by_cases there : coin ∈ s.setCoinsRet
  · rw [if_pos there]
    refine ⟨Or.inl, fun member => ?_⟩
    rcases member with old | rfl
    · exact old
    · exact there
  · rw [if_neg there, mem_append, mem_singleton]

/-- A loop over distinct coins that takes some of those with `P`, none of which was taken before. -/
theorem Selection.foldl_sums {P : COutput → Prop} {take : Selection → COutput → Selection}
    (steps : ∀ s out, take s out = s ∨ (P out ∧ take s out = s.insert out.toCoin))
    {vCoins : List COutput} (distinct : (vCoins.map toCoin).Nodup) {s : Selection}
    (sums : s.Sums) (new : ∀ out ∈ vCoins, P out → out.toCoin ∉ s.setCoinsRet) :
    (vCoins.foldl take s).Sums ∧ ∀ coin ∈ (vCoins.foldl take s).setCoinsRet,
      coin ∈ s.setCoinsRet ∨ ∃ out ∈ vCoins, P out ∧ out.toCoin = coin := by
  induction vCoins generalizing s with
  | nil => exact ⟨sums, fun coin member => Or.inl member⟩
  | cons out vCoins ih =>
    obtain ⟨other, distinct⟩ := nodup_cons.mp distinct
    obtain ⟨first, new⟩ := forall_mem_cons.mp new
    rw [foldl_cons]
    rcases steps s out with same | ⟨taken, inserts⟩
    · rw [same]
      obtain ⟨sums', among⟩ := ih distinct sums new
      refine ⟨sums', fun coin member => (among coin member).imp id ?_⟩
      rintro ⟨out', inside, rest⟩
      exact ⟨out', mem_cons_of_mem _ inside, rest⟩
    rw [inserts]
    have apart : ∀ out' ∈ vCoins, P out' → out'.toCoin ∉ (s.insert out.toCoin).setCoinsRet := by
      intro out' inside allowed member
      rcases Selection.mem_insert.mp member with old | same
      · exact new out' inside allowed old
      · exact other (same ▸ mem_map_of_mem inside)
    obtain ⟨sums', among⟩ := ih distinct (sums.insert (first taken)) apart
    refine ⟨sums', fun coin member => ?_⟩
    rcases among coin member with before | ⟨out', inside, rest⟩
    · rcases Selection.mem_insert.mp before with old | rfl
      · exact Or.inl old
      · exact Or.inr ⟨out, mem_cons_self, taken, rfl⟩
    · exact Or.inr ⟨out', mem_cons_of_mem _ inside, rest⟩

section Selects

variable {env : CoinsEnv} {vCoins : List COutput}

theorem sums_takeSelected (coin_type : AvailableCoinsType)
    (distinct : (vCoins.map toCoin).Nodup) :
    (vCoins.foldl (takeSelected env coin_type) {}).Sums ∧
      ∀ coin ∈ (vCoins.foldl (takeSelected env coin_type) {}).setCoinsRet,
        coin ∈ vCoins.map toCoin := by
  have steps : ∀ s out, takeSelected env coin_type s out = s ∨
      (True ∧ takeSelected env coin_type s out = s.insert out.toCoin) := by
    intro s out
    unfold takeSelected
    split
    · exact Or.inl rfl
    · split
      · exact Or.inl rfl
      · exact Or.inr ⟨trivial, rfl⟩
  obtain ⟨sums, among⟩ := Selection.foldl_sums steps distinct (s := {}) ⟨nodup_nil, rfl⟩
    fun _ _ _ => not_mem_nil
  refine ⟨sums, fun coin member => ?_⟩
  rcases among coin member with none | ⟨out, inside, -, rfl⟩
  · cases none
  · exact mem_map_of_mem inside

/-- The loop over distinct denominations; a coin has the value of one of them only. -/
theorem sums_takeDenominated (nTargetValue : Int) {values : List Int} (apart : values.Nodup)
    (distinct : (vCoins.map toCoin).Nodup) {s : Selection} (sums : s.Sums)
    (among : ∀ coin ∈ s.setCoinsRet, coin ∈ vCoins.map toCoin ∧ coin.nValue ∉ values) :
    let s := values.foldl (fun s v => vCoins.foldl (takeDenominated env nTargetValue v) s) s
    s.Sums ∧ ∀ coin ∈ s.setCoinsRet, coin ∈ vCoins.map toCoin := by
  induction values generalizing s with
  | nil => exact ⟨sums, fun coin member => (among coin member).1⟩
  | cons v values ih =>
    obtain ⟨other, apart⟩ := nodup_cons.mp apart
    have steps : ∀ s out, takeDenominated env nTargetValue v s out = s ∨
        (out.nValue = v ∧ takeDenominated env nTargetValue v s out = s.insert out.toCoin) := by
      intro s out
      unfold takeDenominated
      split
      · rename_i fits
        split
        · exact Or.inl rfl
        · exact Or.inr ⟨fits.1, rfl⟩
      · exact Or.inl rfl
    obtain ⟨sums', taken⟩ := Selection.foldl_sums steps distinct sums fun out _ value member =>
      (among _ member).2 (value ▸ mem_cons_self)
    rw [foldl_cons]
    refine ih apart sums' fun coin member => ?_
    rcases taken coin member with old | ⟨out, inside, value, rfl⟩
    · obtain ⟨listed, unmatched⟩ := among coin old
      exact ⟨listed, fun later => unmatched (mem_cons_of_mem _ later)⟩
    · exact ⟨mem_map_of_mem inside, value ▸ other⟩

theorem selectCoins_reaches {chance : Nat → Chance} {nTargetValue : Int}
    {coinControl : Option CCoinControl} {coin_type : AvailableCoinsType} {useIX : Bool}
    {s : Selection}
    (selects : selectCoins env chance nTargetValue coinControl coin_type useIX = some s) :
    s.Reaches ((availableCoins env true coinControl false coin_type useIX).map toCoin)
      nTargetValue := by
  have distinct := @availableCoins_distinct env coinControl coin_type true false useIX
  unfold selectCoins at selects
  dsimp only at selects
  generalize availableCoins env true coinControl false coin_type useIX = vCoins
    at selects distinct
  have minConf : ∀ {nConfMine nConfTheirs : Int} {k : Nat}, selectCoinsMinConf env.isFromMe
      nTargetValue nConfMine nConfTheirs (chance k) vCoins = some s →
      s.Reaches (vCoins.map toCoin) nTargetValue := by
    intro nConfMine nConfTheirs k found
    refine (selectCoinsMinConf_reaches distinct found).of_subset fun coin member => ?_
    exact (filter_sublist.map toCoin).subset member
  split at selects
  · obtain ⟨sums, among⟩ := @sums_takeSelected env vCoins coin_type distinct
    split at selects
    · rename_i enough
      obtain rfl := Option.some.inj selects
      exact ⟨sums.distinct, among, sums.total, enough⟩
    · cases selects
  split at selects
  · have denominations : obfuScationDenominations.Nodup := by decide
    obtain ⟨sums, among⟩ := @sums_takeDenominated env vCoins nTargetValue _ denominations distinct {}
      ⟨nodup_nil, rfl⟩ (by simp)
    split at selects
    · rename_i enough
      obtain rfl := Option.some.inj selects
      exact ⟨sums.distinct, among, sums.total, enough⟩
    · cases selects
  · rcases Option.or_eq_some_iff.mp selects with first | ⟨-, selects⟩
    · exact minConf first
    rcases Option.or_eq_some_iff.mp selects with second | ⟨-, selects⟩
    · exact minConf second
    split at selects
    · exact minConf selects
    · cases selects

end Selects

end Esbcoin
