import Esbcoin.Lib.Flags
import Esbcoin.Masternode.BlockPayees
import Esbcoin.Obfuscation.Pool
import Mathlib.Algebra.Order.BigOperators.Group.List

/-!
# The selection of coins

Rendering of `CWallet::SelectCoinsMinConf` with `ApproximateBestSubset` (`src/wallet.cpp:1536-1573,
1653-1758`). The shuffle, the sorts that leave equal elements in any order, and the random numbers
are in a `Chance`.
-/

namespace Esbcoin

open Arrange Flags List

/-- A pair of a pointer to a transaction of the wallet and the number of an output. -/
structure Coin where
  tx : CTransaction
  i : Nat
  inside : i < tx.vout.length
deriving DecidableEq

/-- The value of a coin. -/
def Coin.nValue (coin : Coin) : Int := (coin.tx.vout.get ⟨coin.i, coin.inside⟩).nValue

/-- `COutput` (`wallet.h:893-909`). -/
structure COutput extends Coin where
  nDepth : Int
  fSpendable : Bool

/-- `IsDenominatedAmount` (`wallet.cpp:939-945`). -/
def isDenominatedAmount (nInputAmount : Int) : Bool :=
  obfuScationDenominations.any fun d => nInputAmount == d

/-- What chance decides: the order behind `random_shuffle` and the sort by `less_then_denom`, that
of coins of one value, and the bits that `insecure_rand` draws. -/
structure Chance where
  order : List COutput → List COutput
  order_perm : ∀ vCoins, (order vCoins).Perm vCoins
  sortValues : List Coin → List Coin
  sortValues_arranged : ∀ vValue, Arrangement Coin.nValue vValue (sortValues vValue)
  rand : Nat → Nat → Bool

/-! ## The approximation of the best subset -/

/-- What `ApproximateBestSubset` works on, and how many bits it has drawn. -/
structure Approximation where
  vfIncluded : List Bool := []
  nTotal : Int := 0
  fReachedTarget : Bool := false
  vfBest : List Bool
  nBest : Int
  drawn : Nat := 0

section Approximate

variable (rand : Nat → Bool) (vValue : List Coin) (nTargetValue : Int)

/-- One turn of the innermost loop (`wallet.cpp:1550-1569`). -/
def includeCoin (nPass : Nat) (s : Approximation) (i : Nat) : Approximation :=
  let n := (vValue[i]?.map Coin.nValue).getD 0
  let takes := if nPass = 0 then rand s.drawn else !s.vfIncluded.getD i false
  let s := if nPass = 0 then { s with drawn := s.drawn + 1 } else s
  if takes then
    let nTotal := s.nTotal + n
    let vfIncluded := s.vfIncluded.set i true
    if nTotal ≥ nTargetValue then
      { s with
        fReachedTarget := true
        nBest := if nTotal < s.nBest then nTotal else s.nBest
        vfBest := if nTotal < s.nBest then vfIncluded else s.vfBest
        nTotal := nTotal - n
        vfIncluded := vfIncluded.set i false }
    else { s with nTotal, vfIncluded }
  else s

/-- The loop over the coins. -/
def includePass (nPass : Nat) (s : Approximation) : Approximation :=
  (List.range vValue.length).foldl (includeCoin rand vValue nTargetValue nPass) s

/-- One repetition (`wallet.cpp:1546-1571`). -/
def repetition (s : Approximation) : Approximation :=
  let s := { s with
    vfIncluded := List.replicate vValue.length false
    nTotal := 0
    fReachedTarget := false }
  let s := includePass rand vValue nTargetValue 0 s
  if s.fReachedTarget then s else includePass rand vValue nTargetValue 1 s

/-- The outer loop. -/
def repetitions : Nat → Approximation → Approximation
  | 0, s => s
  | iterations + 1, s =>
    if s.nBest ≠ nTargetValue then repetitions iterations (repetition rand vValue nTargetValue s)
    else s

/-- `ApproximateBestSubset` (`wallet.cpp:1536-1573`): `vfBest` and `nBest`. -/
def approximateBestSubset (nTotalLower : Int) (iterations : Nat) : Approximation :=
  repetitions rand vValue nTargetValue iterations
    { vfBest := List.replicate vValue.length true, nBest := nTotalLower }

end Approximate

/-! ## The selection -/

/-- The coins that are selected and their value. -/
structure Selection where
  setCoinsRet : List Coin := []
  nValueRet : Int := 0

/-- A coin is put into the set and its value added. -/
def Selection.insert (s : Selection) (coin : Coin) : Selection :=
  ⟨if coin ∈ s.setCoinsRet then s.setCoinsRet else s.setCoinsRet ++ [coin],
    s.nValueRet + coin.nValue⟩

/-- The selection of these coins. -/
def Selection.of (coins : List Coin) : Selection := coins.foldl Selection.insert {}

/-- What the loop over the coins gathers; `coinLowestLarger` is null at first. -/
structure Scan where
  vValue : List Coin := []
  nTotalLower : Int := 0
  coinLowestLarger : Option Coin

/-- `coinLowestLarger.first`, at first the greatest `CAmount`. -/
def Scan.lowestLarger (s : Scan) : Int := s.coinLowestLarger.elim (2 ^ 63 - 1) Coin.nValue

section Select

variable (isFromMe : CTransaction → Bool) (nTargetValue nConfMine nConfTheirs : Int)

/-- Is a coin looked at (`wallet.cpp:1674-1681`)? -/
def satisfiesConf (output : COutput) : Bool :=
  output.fSpendable &&
    decide ((if isFromMe output.tx then nConfMine else nConfTheirs) ≤ output.nDepth)

/-- The loop over the coins (`wallet.cpp:1673-1698`); a coin of exactly the target value ends it. -/
def scanCoins (tryDenom : Nat) : List COutput → Scan → Coin ⊕ Scan
  | [], s => .inr s
  | output :: vCoins, s =>
    if !satisfiesConf isFromMe nConfMine nConfTheirs output then scanCoins tryDenom vCoins s
    else
      let n := output.nValue
      if tryDenom = 0 && isDenominatedAmount n then scanCoins tryDenom vCoins s
      else if n = nTargetValue then .inl output.toCoin
      else if n < nTargetValue + CENT then
        scanCoins tryDenom vCoins
          { s with vValue := s.vValue ++ [output.toCoin], nTotalLower := s.nTotalLower + n }
      else if n < s.lowestLarger then
        scanCoins tryDenom vCoins { s with coinLowestLarger := some output.toCoin }
      else scanCoins tryDenom vCoins s

/-- How a turn of the loop over `tryDenom` ends. -/
inductive PassEnd
  | returns (selected : Option Selection)
  | continues (coinLowestLarger : Option Coin)
  | breaks (s : Scan)

/-- One turn of the loop over `tryDenom` (`wallet.cpp:1669-1725`). -/
def tryPass (vCoins : List COutput) (tryDenom : Nat) (coinLowestLarger : Option Coin) : PassEnd :=
  match scanCoins isFromMe nTargetValue nConfMine nConfTheirs tryDenom vCoins
      { coinLowestLarger } with
  | .inl coin => .returns (some (.of [coin]))
  | .inr s =>
    if s.nTotalLower = nTargetValue then .returns (some (.of s.vValue))
    else if s.nTotalLower < nTargetValue then
      match s.coinLowestLarger with
      | none => if tryDenom = 0 then .continues none else .returns none
      | some coin => .returns (some (.of [coin]))
    else .breaks s

/-- The rest (`wallet.cpp:1727-1757`). -/
def solveSubset (chance : Chance) (s : Scan) : Selection :=
  let vValue := chance.sortValues s.vValue
  let best := approximateBestSubset (chance.rand 0) vValue nTargetValue s.nTotalLower 1000
  let best :=
    if best.nBest ≠ nTargetValue ∧ s.nTotalLower ≥ nTargetValue + CENT then
      approximateBestSubset (chance.rand 1) vValue (nTargetValue + CENT) s.nTotalLower 1000
    else best
  match s.coinLowestLarger with
  | some coin =>
    if (best.nBest ≠ nTargetValue ∧ best.nBest < nTargetValue + CENT) ∨ coin.nValue ≤ best.nBest then
      .of [coin]
    else .of (picked vValue best.vfBest)
  | none => .of (picked vValue best.vfBest)

/-- `CWallet::SelectCoinsMinConf` (`wallet.cpp:1653-1758`): `setCoinsRet` and `nValueRet` where it
returns `true`. -/
def selectCoinsMinConf (chance : Chance) (vCoins : List COutput) : Option Selection :=
  let vCoins := chance.order vCoins
  match tryPass isFromMe nTargetValue nConfMine nConfTheirs vCoins 0 none with
  | .returns selected => selected
  | .breaks s => some (solveSubset nTargetValue chance s)
  | .continues coinLowestLarger =>
    match tryPass isFromMe nTargetValue nConfMine nConfTheirs vCoins 1 coinLowestLarger with
    | .returns selected => selected
    | .breaks s => some (solveSubset nTargetValue chance s)
    | .continues _ => none

end Select

/-! ## What the approximation finds -/

section Found

variable {rand : Nat → Bool} {vValue : List Coin} {nTargetValue : Int} {s : Approximation}

/-- What was approximated reaches the target. -/
structure Approximation.Reaches (vValue : List Coin) (nTargetValue : Int) (s : Approximation) :
    Prop where
  best : s.nBest = weight Coin.nValue vValue s.vfBest
  enough : nTargetValue ≤ s.nBest

/-- An approximation with the total of what is included. -/
structure Approximation.Sound (vValue : List Coin) (nTargetValue : Int) (s : Approximation) :
    Prop extends s.Reaches vValue nTargetValue where
  length : s.vfIncluded.length = vValue.length
  total : s.nTotal = weight Coin.nValue vValue s.vfIncluded

/-- A coin that is not included may be; the flags of the coins behind it stay. -/
theorem sound_includeCoin (sound : s.Sound vValue nTargetValue) {nPass i : Nat}
    (inside : i < vValue.length) (blank : nPass = 0 → s.vfIncluded[i]? = some false) :
    (includeCoin rand vValue nTargetValue nPass s i).Sound vValue nTargetValue ∧
      ∀ j, i < j → (includeCoin rand vValue nTargetValue nPass s i).vfIncluded[j]? =
        s.vfIncluded[j]? := by
  obtain ⟨⟨best, enough⟩, length, total⟩ := sound
  obtain ⟨coin, there⟩ : ∃ coin, vValue[i]? = some coin := ⟨_, List.getElem?_eq_getElem inside⟩
  have value : (vValue[i]?.map Coin.nValue).getD 0 = coin.nValue := by rw [there]; rfl
  obtain ⟨drawn, draws⟩ : ∃ drawn, (if nPass = 0 then { s with drawn := s.drawn + 1 } else s) =
      { s with drawn } := by
    by_cases first : nPass = 0
    · exact ⟨s.drawn + 1, if_pos first⟩
    · exact ⟨s.drawn, if_neg first⟩
  unfold includeCoin
  rw [value, draws]
  by_cases takes : (if nPass = 0 then rand s.drawn else !s.vfIncluded.getD i false) = true
  · have out : s.vfIncluded[i]? = some false := by
      by_cases first : nPass = 0
      · exact blank first
      · rw [if_neg first, getD_eq_getElem?_getD, List.getElem?_eq_getElem (by omega)] at takes
        rw [List.getElem?_eq_getElem (by omega)]
        simpa using takes
    have added := weight_set Coin.nValue there out
    rw [if_pos takes]
    by_cases reached : s.nTotal + coin.nValue ≥ nTargetValue
    · have restored : (s.vfIncluded.set i true).set i false = s.vfIncluded := by
        obtain ⟨here, same⟩ := List.getElem?_eq_some_iff.mp out
        rw [set_set, ← same, set_getElem_self]
      rw [if_pos reached]
      refine ⟨⟨⟨?_, ?_⟩, ?_, ?_⟩, fun j _ => ?_⟩
      · dsimp only
        split
        · rw [added, total]
        · exact best
      · dsimp only
        split <;> omega
      · simpa using length
      · dsimp only
        rw [restored, total]
        omega
      · dsimp only
        rw [restored]
    · rw [if_neg reached]
      refine ⟨⟨⟨best, enough⟩, ?_, ?_⟩, fun j behind => ?_⟩
      · simpa using length
      · dsimp only
        rw [added, total]
      · exact List.getElem?_set_ne (by omega)
  · rw [if_neg takes]
    exact ⟨⟨⟨best, enough⟩, length, total⟩, fun _ _ => rfl⟩

/-- A pass in front of which no coin is included, if it is the first. -/
theorem sound_includePass (sound : s.Sound vValue nTargetValue) {nPass : Nat}
    (blank : nPass = 0 → s.vfIncluded = List.replicate vValue.length false) :
    (includePass rand vValue nTargetValue nPass s).Sound vValue nTargetValue := by
  have run : ∀ k ≤ vValue.length,
      ((List.range k).foldl (includeCoin rand vValue nTargetValue nPass) s).Sound
          vValue nTargetValue ∧
        ∀ j, k ≤ j → ((List.range k).foldl (includeCoin rand vValue nTargetValue nPass)
          s).vfIncluded[j]? = s.vfIncluded[j]? := by
    intro k
    induction k with
    | zero =>
      intro _
      exact ⟨sound, fun _ _ => rfl⟩
    | succ k ih =>
      intro le
      obtain ⟨before, rest⟩ := ih (by omega)
      rw [range_succ, foldl_append, foldl_cons, foldl_nil]
      obtain ⟨after, behind⟩ := @sound_includeCoin rand _ _ _ before nPass k (by omega)
        fun first => by
          rw [rest k (le_refl k), blank first, List.getElem?_replicate, if_pos (by omega)]
      exact ⟨after, fun j less => (behind j (by omega)).trans (rest j (by omega))⟩
  exact (run vValue.length (le_refl _)).1

theorem reaches_repetition (reaches : s.Reaches vValue nTargetValue) :
    (repetition rand vValue nTargetValue s).Reaches vValue nTargetValue := by
  unfold repetition
  dsimp only
  generalize begun : ({ s with
    vfIncluded := List.replicate vValue.length false
    nTotal := 0
    fReachedTarget := false } : Approximation) = s'
  have blank : s'.vfIncluded = List.replicate vValue.length false := by rw [← begun]
  have sound : s'.Sound vValue nTargetValue := by
    rw [← begun]
    refine ⟨⟨reaches.best, reaches.enough⟩, length_replicate, ?_⟩
    rw [weight, picked_none]
    rfl
  have first : (includePass rand vValue nTargetValue 0 s').Sound vValue nTargetValue :=
    sound_includePass sound fun _ => blank
  split
  · exact first.toReaches
  · exact (sound_includePass first fun second => absurd second Nat.one_ne_zero).toReaches

theorem reaches_repetitions (iterations : Nat) (reaches : s.Reaches vValue nTargetValue) :
    (repetitions rand vValue nTargetValue iterations s).Reaches vValue nTargetValue := by
  induction iterations generalizing s with
  | zero => exact reaches
  | succ iterations ih =>
    rw [repetitions]
    split
    · exact ih (reaches_repetition reaches)
    · exact reaches

theorem reaches_approximateBestSubset (rand : Nat → Bool) (iterations : Nat) {nTotalLower : Int}
    (total : nTotalLower = (vValue.map Coin.nValue).sum) (enough : nTargetValue ≤ nTotalLower) :
    (approximateBestSubset rand vValue nTargetValue nTotalLower iterations).Reaches vValue
      nTargetValue := by
  apply reaches_repetitions
  refine ⟨?_, enough⟩
  rw [weight, picked_all]
  exact total

end Found

/-! ## What is selected -/

/-- The value of coins together. -/
def totalValue (coins : List Coin) : Int := (coins.map Coin.nValue).sum

/-- Distinct coins out of these, whose total is `nValueRet` and reaches the target. -/
structure Selection.Reaches (coins : List Coin) (nTargetValue : Int) (s : Selection) : Prop where
  distinct : s.setCoinsRet.Nodup
  among : ∀ coin ∈ s.setCoinsRet, coin ∈ coins
  total : s.nValueRet = totalValue s.setCoinsRet
  enough : nTargetValue ≤ s.nValueRet

theorem Selection.of_eq {coins : List Coin} (distinct : coins.Nodup) :
    Selection.of coins = ⟨coins, totalValue coins⟩ := by
  have run : ∀ (rest front : List Coin), (front ++ rest).Nodup →
      rest.foldl Selection.insert ⟨front, totalValue front⟩ =
        ⟨front ++ rest, totalValue (front ++ rest)⟩ := by
    intro rest
    induction rest with
    | nil => simp
    | cons coin rest ih =>
      intro front distinct
      have new : coin ∉ front := by
        intro member
        exact (nodup_append.mp distinct).2.2 coin member coin mem_cons_self rfl
      have value : totalValue (front ++ [coin]) = totalValue front + coin.nValue := by
        simp [totalValue]
      rw [append_cons] at distinct
      rw [foldl_cons, Selection.insert, if_neg new, ← value, ih _ distinct, append_assoc,
        singleton_append]
  exact run coins [] distinct

theorem Selection.reaches_of {coins chosen : List Coin} {nTargetValue : Int}
    (distinct : chosen.Nodup) (among : ∀ coin ∈ chosen, coin ∈ coins)
    (enough : nTargetValue ≤ totalValue chosen) :
    (Selection.of chosen).Reaches coins nTargetValue := by
  rw [Selection.of_eq distinct]
  exact ⟨distinct, among, rfl, enough⟩

section Selected

variable {isFromMe : CTransaction → Bool} {nTargetValue nConfMine nConfTheirs : Int}

/-- The coins that a turn over `tryDenom` looks at. -/
def passCoins (isFromMe : CTransaction → Bool) (nConfMine nConfTheirs : Int) (tryDenom : Nat)
    (vCoins : List COutput) : List Coin :=
  (vCoins.filter fun output => satisfiesConf isFromMe nConfMine nConfTheirs output &&
    !(decide (tryDenom = 0) && isDenominatedAmount output.nValue)).map COutput.toCoin

/-- What the scan keeps of the coins it has seen. -/
structure Scan.Gathers (coins : List Coin) (nTargetValue : Int) (s : Scan) : Prop where
  vValue : s.vValue = coins.filter fun coin => coin.nValue < nTargetValue + CENT
  total : s.nTotalLower = totalValue s.vValue
  larger : ∀ coin, s.coinLowestLarger = some coin → coin ∈ coins ∧ nTargetValue + CENT ≤ coin.nValue
  all : s.coinLowestLarger = none → ∀ coin ∈ coins, coin.nValue < 2 ^ 63 - 1 →
    coin.nValue < nTargetValue + CENT

variable {coin : Coin} {selected : Selection}

theorem Scan.Gathers.lower {coins : List Coin} {s : Scan} (gathers : s.Gathers coins nTargetValue)
    (lower : coin.nValue < nTargetValue + CENT) :
    Scan.Gathers (coins ++ [coin]) nTargetValue { s with
      vValue := s.vValue ++ [coin]
      nTotalLower := s.nTotalLower + coin.nValue } := by
  refine ⟨?_, ?_, fun larger same => ?_, fun none => ?_⟩
  · simp [gathers.vValue, lower]
  · simp [gathers.total, totalValue]
  · obtain ⟨member, value⟩ := gathers.larger larger same
    exact ⟨mem_append_left _ member, value⟩
  · rw [forall_mem_append, forall_mem_singleton]
    exact ⟨gathers.all none, fun _ => lower⟩

theorem Scan.Gathers.higher {coins : List Coin} {s : Scan} (gathers : s.Gathers coins nTargetValue)
    (higher : ¬ coin.nValue < nTargetValue + CENT) {coinLowestLarger : Option Coin}
    (kept : coinLowestLarger = some coin ∨ coinLowestLarger = s.coinLowestLarger ∧
      (coinLowestLarger = none → 2 ^ 63 - 1 ≤ coin.nValue)) :
    Scan.Gathers (coins ++ [coin]) nTargetValue { s with coinLowestLarger } := by
  refine ⟨?_, gathers.total, fun larger same => ?_, fun none => ?_⟩
  · simp [gathers.vValue, higher]
  · rcases kept with new | ⟨old, -⟩
    · obtain rfl := Option.some.inj (new.symm.trans same)
      exact ⟨mem_append_right _ mem_cons_self, by omega⟩
    · obtain ⟨member, value⟩ := gathers.larger larger (old.symm.trans same)
      exact ⟨mem_append_left _ member, value⟩
  · rcases kept with new | ⟨old, huge⟩
    · exact absurd (new.symm.trans none) (Option.some_ne_none coin)
    · have large := huge none
      rw [forall_mem_append, forall_mem_singleton]
      exact ⟨gathers.all (old.symm.trans none), fun small => by omega⟩

/-- How the loop over coins ends behind coins that were gathered: with a coin of exactly the target
value, or with all of them gathered. -/
def ScanFinds (coins more : List Coin) (nTargetValue : Int) : Coin ⊕ Scan → Prop
  | .inl coin => coin ∈ more ∧ coin.nValue = nTargetValue
  | .inr s => s.Gathers (coins ++ more) nTargetValue

theorem ScanFinds.cons {coins more : List Coin} {coin : Coin} {found : Coin ⊕ Scan}
    (finds : ScanFinds (coins ++ [coin]) more nTargetValue found) :
    ScanFinds coins (coin :: more) nTargetValue found := by
  cases found with
  | inl exact_coin => exact ⟨mem_cons_of_mem _ finds.1, finds.2⟩
  | inr s =>
    have gathers : s.Gathers (coins ++ [coin] ++ more) nTargetValue := finds
    rw [append_assoc, singleton_append] at gathers
    exact gathers

/-- The greatest `CAmount` stands for no larger coin; a coin that is worth it is passed over. -/
theorem scanCoins_finds (tryDenom : Nat) {vCoins : List COutput} {coins : List Coin} {s : Scan}
    (gathers : s.Gathers coins nTargetValue) :
    ScanFinds coins (passCoins isFromMe nConfMine nConfTheirs tryDenom vCoins) nTargetValue
      (scanCoins isFromMe nTargetValue nConfMine nConfTheirs tryDenom vCoins s) := by
  induction vCoins generalizing coins s with
  | nil =>
    show s.Gathers (coins ++ []) nTargetValue
    rw [append_nil]
    exact gathers
  | cons output vCoins ih =>
    rw [scanCoins, passCoins, filter_cons]
    dsimp only
    cases satisfies : satisfiesConf isFromMe nConfMine nConfTheirs output with
    | false => exact ih gathers
    | true =>
      cases denominated : decide (tryDenom = 0) && isDenominatedAmount output.nValue with
      | true => exact ih gathers
      | false =>
        by_cases same : output.nValue = nTargetValue
        · rw [if_pos same]
          exact ⟨mem_cons_self, same⟩
        rw [if_neg same]
        by_cases lower : output.nValue < nTargetValue + CENT
        · rw [if_pos lower]
          exact (ih (gathers.lower lower)).cons
        rw [if_neg lower]
        by_cases lowest : output.nValue < s.lowestLarger
        · rw [if_pos lowest]
          exact (ih (gathers.higher lower (Or.inl rfl))).cons
        rw [if_neg lowest]
        have huge : s.coinLowestLarger = none → 2 ^ 63 - 1 ≤ output.nValue := by
          intro none
          rw [Scan.lowestLarger, none] at lowest
          exact Int.not_lt.mp lowest
        exact (ih (gathers.higher lower (Or.inr ⟨rfl, huge⟩))).cons

variable {coins : List Coin} {s : Scan} {chance : Chance}

theorem cent_pos : 0 < CENT := by decide

theorem reaches_larger (gathers : s.Gathers coins nTargetValue)
    (larger : s.coinLowestLarger = some coin) :
    (Selection.of [coin]).Reaches coins nTargetValue := by
  obtain ⟨member, value⟩ := gathers.larger coin larger
  have positive := cent_pos
  refine Selection.reaches_of (nodup_singleton coin) ?_ ?_
  · simpa using member
  · simp only [totalValue, map_cons, map_nil, sum_cons, sum_nil]
    omega

/-- The rest selects coins that reach the target out of those that were gathered. -/
theorem solveSubset_reaches (distinct : coins.Nodup) (gathers : s.Gathers coins nTargetValue)
    (more : nTargetValue ≤ s.nTotalLower) :
    (solveSubset nTargetValue chance s).Reaches coins nTargetValue := by
  have sorted := (chance.sortValues_arranged s.vValue).perm
  unfold solveSubset
  dsimp only
  generalize chance.sortValues s.vValue = vValue at sorted
  have total : s.nTotalLower = (vValue.map Coin.nValue).sum := by
    rw [gathers.total, totalValue]
    exact ((sorted.map Coin.nValue).sum_eq).symm
  have lower : ∀ coin ∈ vValue, coin ∈ coins := by
    intro coin member
    have inside := sorted.subset member
    rw [gathers.vValue] at inside
    exact (mem_filter.mp inside).1
  have lower_distinct : vValue.Nodup := by
    rw [sorted.nodup_iff, gathers.vValue]
    exact distinct.filter _
  have first := reaches_approximateBestSubset (chance.rand 0) 1000 total more
  generalize approximateBestSubset (chance.rand 0) vValue nTargetValue s.nTotalLower 1000 = best
    at first
  have second : (if best.nBest ≠ nTargetValue ∧ s.nTotalLower ≥ nTargetValue + CENT then
      approximateBestSubset (chance.rand 1) vValue (nTargetValue + CENT) s.nTotalLower 1000
      else best).Reaches vValue nTargetValue := by
    split
    · rename_i again
      have reaches := reaches_approximateBestSubset (chance.rand 1) 1000 total again.2
      have positive := cent_pos
      have enough := reaches.enough
      exact ⟨reaches.best, by omega⟩
    · exact first
  generalize (if best.nBest ≠ nTargetValue ∧ s.nTotalLower ≥ nTargetValue + CENT then
      approximateBestSubset (chance.rand 1) vValue (nTargetValue + CENT) s.nTotalLower 1000
      else best) = best' at second
  have subset : (Selection.of (picked vValue best'.vfBest)).Reaches coins nTargetValue := by
    have sublist := picked_sublist vValue best'.vfBest
    refine Selection.reaches_of (sublist.nodup lower_distinct)
      (fun coin member => lower coin (sublist.subset member)) ?_
    have enough := second.enough
    rw [second.best] at enough
    exact enough
  cases larger : s.coinLowestLarger with
  | none => exact subset
  | some coin =>
    dsimp only
    split
    · exact reaches_larger gathers larger
    · exact subset

/-- What a turn over `tryDenom` leaves, when no larger coin was found in front of it. -/
theorem tryPass_spec {vCoins : List COutput} (tryDenom : Nat)
    (distinct : (passCoins isFromMe nConfMine nConfTheirs tryDenom vCoins).Nodup) :
    match tryPass isFromMe nTargetValue nConfMine nConfTheirs vCoins tryDenom none with
    | .returns (some selected) => selected.Reaches
        (passCoins isFromMe nConfMine nConfTheirs tryDenom vCoins) nTargetValue
    | .returns none => tryDenom ≠ 0 ∧
        ((∀ coin ∈ passCoins isFromMe nConfMine nConfTheirs tryDenom vCoins,
            coin.nValue < 2 ^ 63 - 1) →
          totalValue (passCoins isFromMe nConfMine nConfTheirs tryDenom vCoins) < nTargetValue)
    | .continues coinLowestLarger => tryDenom = 0 ∧ coinLowestLarger = none
    | .breaks s => (solveSubset nTargetValue chance s).Reaches
        (passCoins isFromMe nConfMine nConfTheirs tryDenom vCoins) nTargetValue := by
  have finds := @scanCoins_finds isFromMe nTargetValue nConfMine nConfTheirs tryDenom vCoins []
    { coinLowestLarger := none } ⟨rfl, rfl, by simp, by simp⟩
  unfold tryPass
  generalize passCoins isFromMe nConfMine nConfTheirs tryDenom vCoins = coins at finds distinct
  generalize scanCoins isFromMe nTargetValue nConfMine nConfTheirs tryDenom vCoins
    { coinLowestLarger := none } = found at finds
  cases found with
  | inl coin =>
    obtain ⟨member, same⟩ := finds
    refine Selection.reaches_of (nodup_singleton coin) ?_ ?_
    · simpa using member
    · simp [totalValue, same]
  | inr s =>
    have gathers : s.Gathers coins nTargetValue := finds
    have chosen : s.vValue.Nodup ∧ ∀ coin ∈ s.vValue, coin ∈ coins := by
      rw [gathers.vValue]
      exact ⟨distinct.filter _, fun coin member => (mem_filter.mp member).1⟩
    dsimp only
    by_cases same : s.nTotalLower = nTargetValue
    · rw [if_pos same]
      refine Selection.reaches_of chosen.1 chosen.2 ?_
      rw [← gathers.total]
      omega
    rw [if_neg same]
    by_cases lower : s.nTotalLower < nTargetValue
    · rw [if_pos lower]
      cases larger : s.coinLowestLarger with
      | some coin => exact reaches_larger gathers larger
      | none =>
        by_cases first : tryDenom = 0
        · rw [if_pos first]
          exact ⟨first, rfl⟩
        rw [if_neg first]
        refine ⟨first, fun bounded => ?_⟩
        have whole : s.vValue = coins := by
          rw [gathers.vValue, filter_eq_self]
          intro coin member
          exact decide_eq_true (gathers.all larger coin member (bounded coin member))
        rw [← whole, ← gathers.total]
        exact lower
    · rw [if_neg lower]
      exact solveSubset_reaches distinct gathers (by omega)

/-- The coins that satisfy the rule about confirmations. -/
def satisfying (isFromMe : CTransaction → Bool) (nConfMine nConfTheirs : Int)
    (vCoins : List COutput) : List Coin :=
  (vCoins.filter (satisfiesConf isFromMe nConfMine nConfTheirs)).map COutput.toCoin

theorem passCoins_one (vCoins : List COutput) :
    passCoins isFromMe nConfMine nConfTheirs 1 vCoins =
      satisfying isFromMe nConfMine nConfTheirs vCoins := by
  simp [passCoins, satisfying]

theorem passCoins_sublist (tryDenom : Nat) (vCoins : List COutput) :
    (passCoins isFromMe nConfMine nConfTheirs tryDenom vCoins).Sublist
      (satisfying isFromMe nConfMine nConfTheirs vCoins) := by
  refine List.Sublist.map _ (monotone_filter_right _ fun output satisfies => ?_)
  exact (Bool.and_eq_true _ _ ▸ satisfies).1

theorem Selection.Reaches.of_subset {coins' : List Coin}
    (reaches : selected.Reaches coins nTargetValue) (subset : ∀ coin ∈ coins, coin ∈ coins') :
    selected.Reaches coins' nTargetValue :=
  ⟨reaches.distinct, fun coin member => subset coin (reaches.among coin member), reaches.total,
    reaches.enough⟩

/-- Coins that are not negative are worth what is selected of them, or more. -/
theorem Selection.Reaches.le_total (reaches : selected.Reaches coins nTargetValue)
    (nonneg : ∀ coin ∈ coins, 0 ≤ coin.nValue) : nTargetValue ≤ totalValue coins := by
  obtain ⟨l, perm, sublist⟩ := subperm_of_subset reaches.distinct reaches.among
  have values : ∀ value ∈ coins.map Coin.nValue, 0 ≤ value := by
    simpa using nonneg
  calc nTargetValue ≤ selected.nValueRet := reaches.enough
    _ = totalValue l := by
        rw [reaches.total, totalValue, totalValue]
        exact ((perm.map Coin.nValue).sum_eq).symm
    _ ≤ totalValue coins := (sublist.map Coin.nValue).sum_le_sum values

/-- Coins are found that reach the target, or all together are worth less. -/
theorem selectCoinsMinConf_cases (chance : Chance) {vCoins : List COutput}
    (distinct : (vCoins.map COutput.toCoin).Nodup) :
    (∃ s, selectCoinsMinConf isFromMe nTargetValue nConfMine nConfTheirs chance vCoins = some s ∧
      s.Reaches (satisfying isFromMe nConfMine nConfTheirs vCoins) nTargetValue) ∨
    selectCoinsMinConf isFromMe nTargetValue nConfMine nConfTheirs chance vCoins = none ∧
      ((∀ coin ∈ satisfying isFromMe nConfMine nConfTheirs vCoins, coin.nValue < 2 ^ 63 - 1) →
        totalValue (satisfying isFromMe nConfMine nConfTheirs vCoins) < nTargetValue) := by
  have same : (satisfying isFromMe nConfMine nConfTheirs (chance.order vCoins)).Perm
      (satisfying isFromMe nConfMine nConfTheirs vCoins) :=
    ((chance.order_perm vCoins).filter _).map _
  have distinct' : (satisfying isFromMe nConfMine nConfTheirs (chance.order vCoins)).Nodup := by
    rw [same.nodup_iff]
    exact (filter_sublist.map _).nodup distinct
  have lift : ∀ tryDenom, ∀ coin ∈ passCoins isFromMe nConfMine nConfTheirs tryDenom
      (chance.order vCoins), coin ∈ satisfying isFromMe nConfMine nConfTheirs vCoins :=
    fun tryDenom coin member => same.subset ((passCoins_sublist tryDenom _).subset member)
  have first := @tryPass_spec isFromMe nTargetValue nConfMine nConfTheirs chance _ 0
    ((passCoins_sublist 0 _).nodup distinct')
  have second := @tryPass_spec isFromMe nTargetValue nConfMine nConfTheirs chance _ 1
    ((passCoins_sublist 1 _).nodup distinct')
  unfold selectCoinsMinConf
  dsimp only
  cases pass : tryPass isFromMe nTargetValue nConfMine nConfTheirs (chance.order vCoins) 0 none with
  | returns result =>
    rw [pass] at first
    cases result with
    | some s => exact Or.inl ⟨s, rfl, first.of_subset (lift 0)⟩
    | none => exact absurd rfl first.1
  | breaks s =>
    rw [pass] at first
    exact Or.inl ⟨_, rfl, first.of_subset (lift 0)⟩
  | continues coinLowestLarger =>
    rw [pass] at first
    obtain rfl := first.2
    dsimp only
    cases again : tryPass isFromMe nTargetValue nConfMine nConfTheirs (chance.order vCoins) 1
        none with
    | returns result =>
      rw [again] at second
      cases result with
      | some s => exact Or.inl ⟨s, rfl, second.of_subset (lift 1)⟩
      | none =>
        refine Or.inr ⟨rfl, fun bounded => ?_⟩
        have less := second.2 fun coin member => bounded coin (lift 1 coin member)
        rw [passCoins_one, totalValue, (same.map Coin.nValue).sum_eq] at less
        exact less
    | breaks s =>
      rw [again] at second
      exact Or.inl ⟨_, rfl, second.of_subset (lift 1)⟩
    | continues coinLowestLarger =>
      rw [again] at second
      exact absurd second.1 Nat.one_ne_zero

theorem selectCoinsMinConf_reaches {chance : Chance} {vCoins : List COutput}
    (distinct : (vCoins.map COutput.toCoin).Nodup)
    (selects : selectCoinsMinConf isFromMe nTargetValue nConfMine nConfTheirs chance vCoins =
      some selected) :
    selected.Reaches (satisfying isFromMe nConfMine nConfTheirs vCoins) nTargetValue := by
  rcases selectCoinsMinConf_cases chance distinct with ⟨s, found, reaches⟩ | ⟨none, -⟩
  · obtain rfl := Option.some.inj (found.symm.trans selects)
    exact reaches
  · rw [none] at selects
    cases selects

end Selected

/-- Chance that keeps the order of coins as far as the sort lets it, and draws the same bit
always. -/
def Chance.plain (bit : Bool) : Chance where
  order := id
  order_perm _ := .refl _
  sortValues vValue := vValue.insertionSort fun a b => b.nValue ≤ a.nValue
  sortValues_arranged vValue := by
    have total : Std.Total fun a b : Coin => b.nValue ≤ a.nValue :=
      ⟨fun a b => le_total b.nValue a.nValue⟩
    have trans : IsTrans Coin fun a b => b.nValue ≤ a.nValue :=
      ⟨fun a b c first second => second.trans first⟩
    exact ⟨perm_insertionSort _ _, pairwise_insertionSort _ _⟩
  rand _ _ := bit

def soleOutput (hash : UInt256) (nValue : Int) : COutput where
  tx := ⟨hash, 1, [], [⟨nValue, []⟩], 0, []⟩
  i := 0
  inside := Nat.one_pos
  nDepth := 10
  fSpendable := true

end Esbcoin
