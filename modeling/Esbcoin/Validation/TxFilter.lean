import Esbcoin.Destination
import Esbcoin.Lib.BeforeStop
import Esbcoin.Validation.GetTransaction

/-!
# The address filter

`InitTxFilter` and `BuildTxFilter` (`src/spork.cpp:125-2558`), which fill the filter, and
`CheckTxFilter` (`src/main.cpp:1043-1074`): a transaction is refused that spends an output with a
filtered address. The addresses that are always filtered are a parameter.
-/

namespace Esbcoin

/-- `Params().Base58Prefix` of a destination (`chainparams.cpp:159-160`, `:241-242`), one byte. -/
def base58Prefix (params : CChainParams) : CTxDestination → UInt8
  | .keyID _ =>
    match params.networkID with
    | .main | .unittest => 92
    | .testnet | .regtest => 137
  | .scriptID _ =>
    match params.networkID with
    | .main | .unittest => 63
    | .testnet | .regtest => 19

/-- `CBitcoinAddress::Set` (`base58.cpp:237-257`): the version byte and the hash. -/
def addressOf (params : CChainParams) (dest : CTxDestination) : List UInt8 :=
  base58Prefix params dest :: match dest with
    | .keyID hash => hash
    | .scriptID hash => hash

/-- What the filter is made from. -/
structure FilterRules where
  params : CChainParams
  /-- `Hash160`. -/
  hash160 : List UInt8 → List UInt8
  /-- The addresses of `InitTxFilter` with their times (`spork.cpp:127-2510`). -/
  base : AssocMap (List UInt8) Int
  /-- The lowest bit of `sporkMask >> i` for an index past the width, which the language leaves
  open. -/
  shiftPast : BitVec 32 → Nat → Bool

namespace FilterRules

variable (rules : FilterRules)

/-- `InitTxFilter` (`spork.cpp:125-2511`). -/
def initTxFilter (filter : TxFilter) : TxFilter := { filter with mapFilterAddress := rules.base }

/-- The block number of a value of spork 9, as the `int` it is stored in (`spork.cpp:2522-2524`). -/
def targetOf (sporkValue : BitVec 64) : Int := (sporkValue.extractLsb' 32 32).toInt

/-- `sporkMask` (`spork.cpp:2534`). -/
def maskOf (sporkValue : BitVec 64) : BitVec 32 := sporkValue.extractLsb' 0 32

/-- Does the loop of `BuildTxFilter` take the transaction at an index (`spork.cpp:2540`)? -/
def takes (sporkMask : BitVec 32) (i : Nat) : Bool :=
  if i < 32 then sporkMask.getLsbD i else rules.shiftPast sporkMask i

/-- The outputs that the loops of `BuildTxFilter` get to (`spork.cpp:2538-2542`). -/
def takenOutputs (sporkMask : BitVec 32) (block : CBlock) : List CTxOut :=
  (block.vtx.zipIdx.filter fun entry => rules.takes sporkMask entry.2).flatMap fun entry =>
    entry.1.vout.filter fun out => decide (out.nValue > 0)

/-- The body of the loops (`spork.cpp:2543-2545`) on `Address` and the filter. An output without a
destination leaves `Dest` and `Address` as they were, at first without data. -/
def addOutput (nBlockTime : Int) (state : List UInt8 × AssocMap (List UInt8) Int) (out : CTxOut) :
    List UInt8 × AssocMap (List UInt8) Int :=
  let address :=
    match extractDestination rules.hash160 out.scriptPubKey with
    | some dest => addressOf rules.params dest
    | none => state.1
  (address, state.2.insertNew address nBlockTime)

/-- The block at a height. -/
def blockAt (blocks : List CBlock) (nHeight : Int) : Option CBlock :=
  if nHeight < 0 then none else blocks[nHeight.toNat]?

/-- `BuildTxFilter` (`spork.cpp:2513-2558`) on an active chain of these blocks. -/
def buildTxFilter (blocks : List CBlock) (sporkValue : BitVec 64) (filter : TxFilter) :
    TxFilter :=
  let filter := { rules.initTxFilter filter with txFilterTarget := targetOf sporkValue }
  if filter.txFilterTarget = 0 then { filter with txFilterState := true }
  else
    match blockAt blocks filter.txFilterTarget with
    | none => filter
    | some referenceBlock =>
      { filter with
        txFilterState := true
        mapFilterAddress := ((rules.takenOutputs (maskOf sporkValue) referenceBlock).foldl
          (rules.addOutput referenceBlock.getBlockTime) ([], filter.mapFilterAddress)).2 }

end FilterRules

/-- What `CheckTxFilter` reads of the node. -/
structure FilterEnv where
  params : CChainParams
  /-- `Hash160`. -/
  hash160 : List UInt8 → List UInt8
  getAdjustedTime : Int
  source : TxSource
  chainActive : CChain
  mapFilterAddress : AssocMap (List UInt8) Int

namespace FilterEnv

variable (env : FilterEnv)

/-- Is a destination filtered at the time of a block, 0 for a transaction without one
(`main.cpp:1060-1064`)? -/
def filters (nBlockTime : Int) (txDest : CTxDestination) : Bool :=
  match env.mapFilterAddress.lookup (addressOf env.params txDest) with
  | none => false
  | some lockedFrom => nBlockTime == 0 || decide (nBlockTime > lockedFrom)

/-- One turn of the loop of `CheckTxFilter` (`main.cpp:1055-1071`): does the input pass? The output
is read without a look at how many there are; `none` is a read past them. -/
def checkInput (nBlockTime : Int) (txin : CTxIn) : Option Bool :=
  match getTransaction env.source env.chainActive txin.prevout.hash false with
  | none => some true
  | some (prevoutTx, _) =>
    (prevoutTx.vout[txin.prevout.n.toNat]?).map fun out =>
      match extractDestinations env.hash160 out.scriptPubKey with
      | none => true
      | some vDest => !vDest.any (env.filters nBlockTime)

/-- The loop of `CheckTxFilter`. -/
def checkInputs (nBlockTime : Int) : List CTxIn → Option Bool
  | [] => some true
  | txin :: vin =>
    match env.checkInput nBlockTime txin with
    | none => none
    | some false => some false
    | some true => checkInputs nBlockTime vin

/-- Does `CheckTxFilter` look at no input (`main.cpp:1045-1048`)? -/
def skips (nBlockTime : Int) : Bool :=
  (nBlockTime != 0 && decide (nBlockTime < env.getAdjustedTime - 24 * 60 * 60)) ||
    env.mapFilterAddress.size == 0

/-- `CheckTxFilter` (`main.cpp:1043-1074`); `none` where it reads what is not there. -/
def checkTxFilter (tx : CTransaction) (nBlockTime : Int) : Option Bool :=
  if env.skips nBlockTime then some true else env.checkInputs nBlockTime tx.vin

/-- An input names an output that the transaction it spends does not have. -/
def RefersPast (txin : CTxIn) : Prop :=
  ∃ prevoutTx hashBlock, getTransaction env.source env.chainActive txin.prevout.hash false =
    some (prevoutTx, hashBlock) ∧ prevoutTx.vout.length ≤ txin.prevout.n.toNat

/-- An input spends an output with a filtered address. -/
def Filtered (nBlockTime : Int) (txin : CTxIn) : Prop :=
  ∃ prevoutTx hashBlock out vDest txDest,
    getTransaction env.source env.chainActive txin.prevout.hash false =
      some (prevoutTx, hashBlock) ∧
    prevoutTx.vout[txin.prevout.n.toNat]? = some out ∧
    extractDestinations env.hash160 out.scriptPubKey = some vDest ∧ txDest ∈ vDest ∧
    env.filters nBlockTime txDest = true

variable {env}
variable {nBlockTime : Int} {txin : CTxIn} {vin : List CTxIn}

theorem checkInput_eq_none : env.checkInput nBlockTime txin = none ↔ env.RefersPast txin := by
  unfold checkInput RefersPast
  cases found : getTransaction env.source env.chainActive txin.prevout.hash false with
  | none => simp
  | some entry =>
    obtain ⟨prevoutTx, hashBlock⟩ := entry
    simp

theorem checkInput_eq_false :
    env.checkInput nBlockTime txin = some false ↔ env.Filtered nBlockTime txin := by
  unfold checkInput Filtered
  cases found : getTransaction env.source env.chainActive txin.prevout.hash false with
  | none => simp
  | some entry =>
    obtain ⟨prevoutTx, hashBlock⟩ := entry
    simp only [Option.map_eq_some_iff, Option.some.injEq, Prod.mk.injEq]
    constructor
    · rintro ⟨out, read, passes⟩
      cases extracted : extractDestinations env.hash160 out.scriptPubKey with
      | none => rw [extracted] at passes; cases passes
      | some vDest =>
        simp only [extracted, Bool.not_eq_eq_eq_not, Bool.not_false, List.any_eq_true] at passes
        obtain ⟨txDest, member, filtered⟩ := passes
        exact ⟨prevoutTx, hashBlock, out, vDest, txDest, ⟨rfl, rfl⟩, read, extracted, member,
          filtered⟩
    · rintro ⟨_, _, out, vDest, txDest, ⟨rfl, rfl⟩, read, extracted, member, filtered⟩
      refine ⟨out, read, ?_⟩
      simp only [extracted, Bool.not_eq_eq_eq_not, Bool.not_false, List.any_eq_true]
      exact ⟨txDest, member, filtered⟩

/-- `CheckTxFilter` reads past the outputs of a transaction: at an input that refers past them
behind no filtered one. -/
def ReadsPast (env : FilterEnv) (nBlockTime : Int) (tx : CTransaction) : Prop :=
  env.skips nBlockTime = false ∧ BadBeforeStop env.RefersPast (env.Filtered nBlockTime) tx.vin

/-- `CheckTxFilter` refuses: a filtered input stands behind none that refers past the outputs. -/
def Refuses (env : FilterEnv) (nBlockTime : Int) (tx : CTransaction) : Prop :=
  env.skips nBlockTime = false ∧ BadBeforeStop (env.Filtered nBlockTime) env.RefersPast tx.vin

/-- How the loop ends. -/
theorem checkInputs_cases :
    (env.checkInputs nBlockTime vin = none ↔
      BadBeforeStop env.RefersPast (env.Filtered nBlockTime) vin) ∧
    (env.checkInputs nBlockTime vin = some false ↔
      BadBeforeStop (env.Filtered nBlockTime) env.RefersPast vin) := by
  induction vin with
  | nil => simp [checkInputs]
  | cons first vin ih =>
    have past := @checkInput_eq_none env nBlockTime first
    have filtered := @checkInput_eq_false env nBlockTime first
    rw [badBeforeStop_cons, badBeforeStop_cons, ← past, ← filtered, ← ih.1, ← ih.2, checkInputs]
    cases env.checkInput nBlockTime first with
    | none => simp
    | some passed => cases passed <;> simp

theorem checkTxFilter_eq_none {tx : CTransaction} :
    env.checkTxFilter tx nBlockTime = none ↔ env.ReadsPast nBlockTime tx := by
  unfold checkTxFilter ReadsPast
  cases env.skips nBlockTime with
  | true => simp
  | false => simpa using checkInputs_cases.1

theorem checkTxFilter_eq_false {tx : CTransaction} :
    env.checkTxFilter tx nBlockTime = some false ↔ env.Refuses nBlockTime tx := by
  unfold checkTxFilter Refuses
  cases env.skips nBlockTime with
  | true => simp
  | false => simpa using checkInputs_cases.2

end FilterEnv

def emptySource : TxSource where
  mempool := ∅
  fTxIndex := true
  txIndex := ∅
  readTx _ := none
  readBlockFromDisk _ := none
  pcoinsTip := FlatCoins.empty

def emptyFilter : FilterEnv where
  params := mainParams
  hash160 _ := []
  getAdjustedTime := 1600000000
  source := emptySource
  chainActive := ⟨[]⟩
  mapFilterAddress := ∅

end Esbcoin
