import Esbcoin.Validation.FilterRuns

namespace Esbcoin

open FilterRules

namespace FilterNode

variable {rules : FilterRules} {node : FilterNode}

/-- Every time in the filter is that of the base entry or of the target block. -/
structure Timed (rules : FilterRules) (node : FilterNode) : Prop where
  known : ∀ address t, node.txFilter.mapFilterAddress.lookup address = some t →
    rules.base.lookup address = some t ∨ (rules.base.lookup address = none ∧
      ∃ block, node.reference = some block ∧ t = block.getBlockTime)
  kept : node.txFilter.txFilterState = true → ∀ address t,
    rules.base.lookup address = some t → node.txFilter.mapFilterAddress.lookup address = some t

theorem timed_of_base (base : node.txFilter.mapFilterAddress = rules.base) : Timed rules node := by
  refine ⟨fun address t found => .inl ?_, fun _ address t found => ?_⟩
  · rwa [base] at found
  · rwa [base]

/-- A filter that a step has left alone keeps its times: the target block is the one it was, or
there is none before or behind the step, and then all addresses are base addresses. -/
theorem Timed.of_filter {node' : FilterNode} (timed : Timed rules node)
    (right : FilterRight rules node) (right' : FilterRight rules node')
    (filter : node'.txFilter = node.txFilter)
    (reference : node'.reference = none ∨ node.reference = none ∨
      node'.reference = node.reference) : Timed rules node' := by
  constructor
  · intro address t found
    have holds' : node'.Holds address := by
      unfold Holds
      rw [found]
      rfl
    rw [filter] at found
    have holds : node.Holds address := by
      unfold Holds
      rw [found]
      rfl
    rcases timed.known address t found with base | ⟨none, block, here, time⟩
    · exact .inl base
    have other : ¬ rules.Base address := by
      unfold FilterRules.Base
      rw [none]
      decide
    rcases reference with absent | absent | same
    · exact absurd (right'.below absent address holds') other
    · exact absurd (right.below absent address holds) other
    · exact .inr ⟨none, block, same.trans here, time⟩
  · intro on address t base
    rw [filter] at on ⊢
    exact timed.kept on address t base

theorem timed_rebuilt (sporkValue : BitVec 64) : Timed rules (node.rebuilt rules sporkValue) := by
  by_cases zero : targetOf sporkValue = 0
  · refine timed_of_base ?_
    unfold rebuilt
    rw [buildTxFilter_of_zero zero]
  have reference := @reference_rebuilt rules node sporkValue
  rw [if_neg zero] at reference
  cases found : FilterRules.blockAt node.blocks (targetOf sporkValue) with
  | none =>
    refine timed_of_base ?_
    unfold rebuilt
    rw [buildTxFilter_of_none zero found]
  | some block =>
    have map : (node.rebuilt rules sporkValue).txFilter.mapFilterAddress = _ :=
      congrArg TxFilter.mapFilterAddress (buildTxFilter_of_some zero found)
    constructor
    · intro address t here
      rw [map, AssocMap.lookup_insertNewAll] at here
      cases base : rules.base.lookup address with
      | some t' =>
        simp only [base, Option.getD_some, ite_self] at here
        exact .inl here
      | none =>
        simp only [base, Option.getD_none] at here
        split at here
        · exact .inr ⟨rfl, block, reference.trans found, (Option.some.inj here).symm⟩
        · cases here
    · intro _ address t base
      rw [map, AssocMap.lookup_insertNewAll]
      simp [base]

theorem timed_step (tracks : Tracks rules node) (right : FilterRight rules node)
    (timed : Timed rules node) (a : FilterStep) (stepRight : StepRight rules node a) :
    Timed rules (node.step rules a) := by
  have right' := (filterRight_step tracks right a).mpr stepRight
  cases a with
  | connect block =>
    rcases filterAfterConnect_cases tracks with same | ⟨-, cleared⟩
    · refine timed.of_filter right right' same ?_
      rw [reference_connect same]
      by_cases zero : node.txFilter.txFilterTarget = 0
      · exact .inl (if_pos zero)
      rw [if_neg zero]
      by_cases top : node.txFilter.txFilterTarget = node.blocks.length
      · refine .inr (.inl ?_)
        unfold FilterNode.reference
        rw [if_neg zero, blockAt_eq_none (by omega)]
      · refine .inr (.inr ?_)
        unfold FilterNode.reference
        rw [if_neg zero, if_neg top]
    · exact timed_of_base (congrArg TxFilter.mapFilterAddress cleared)
  | disconnect =>
    rcases List.eq_nil_or_concat node.blocks with empty | ⟨below, tip, blocks⟩
    · have still : node.step rules .disconnect = node := by
        unfold step
        simp only [empty, List.isEmpty_nil, if_true]
      rwa [still]
    rw [List.concat_eq_append] at blocks
    have step_eq := @step_disconnect rules node below tip blocks
    by_cases clears : node.txFilter.txFilterState = true ∧
        node.txFilter.txFilterTarget > below.length
    · rw [if_pos clears] at step_eq
      rw [step_eq]
      exact timed_of_base rfl
    rw [if_neg clears] at step_eq
    rw [step_eq] at right' ⊢
    refine timed.of_filter right right' rfl ?_
    rw [reference_of_tip blocks]
    unfold FilterNode.reference
    by_cases zero : node.txFilter.txFilterTarget = 0
    · exact .inl (if_pos zero)
    rw [if_neg zero, if_neg zero]
    by_cases top : node.txFilter.txFilterTarget = below.length
    · have reached : (below.length : Int) ≤ node.txFilter.txFilterTarget := by omega
      exact .inl (blockAt_eq_none reached)
    · rw [if_neg top]
      exact .inr (.inr rfl)
  | executeSpork sporkValue => exact timed_rebuilt sporkValue
  | syncFinished =>
    unfold step
    cases state : node.txFilter.txFilterState with
    | true => simpa only [if_true] using timed
    | false => exact timed_rebuilt node.sporkValue

/-- A right filter with its times. -/
structure Follows (rules : FilterRules) (node : FilterNode) : Prop where
  tracks : Tracks rules node
  right : FilterRight rules node
  timed : Timed rules node

/-- Filters that follow one active chain have the same entries. -/
theorem Follows.lookup_eq {node' : FilterNode} (follows : Follows rules node)
    (follows' : Follows rules node') (blocks : node.blocks = node'.blocks)
    (sporkValue : node.sporkValue = node'.sporkValue)
    (on : node.txFilter.txFilterState = true) (on' : node'.txFilter.txFilterState = true)
    (address : List UInt8) : node.txFilter.mapFilterAddress.lookup address =
      node'.txFilter.mapFilterAddress.lookup address := by
  have target : node.txFilter.txFilterTarget = node'.txFilter.txFilterTarget := by
    rcases follows.tracks.target with target | ⟨off, -⟩
    · rcases follows'.tracks.target with target' | ⟨off, -⟩
      · rw [target, target', sporkValue]
      · rw [on'] at off
        cases off
    · rw [on] at off
      cases off
  have reference : node.reference = node'.reference := by
    unfold FilterNode.reference
    rw [target, blocks]
  have holds : node.Holds address ↔ node'.Holds address := by
    cases here : node.reference with
    | none =>
      have here' := reference.symm.trans here
      exact ⟨fun holds => follows'.tracks.on on' address (follows.right.below here address holds),
        fun holds => follows.tracks.on on address (follows'.right.below here' address holds)⟩
    | some block =>
      rw [follows.right.reached block here on, follows'.right.reached block
        (reference.symm.trans here) on', sporkValue]
  have times : ∀ t t', node.txFilter.mapFilterAddress.lookup address = some t →
      node'.txFilter.mapFilterAddress.lookup address = some t' → t = t' := by
    intro t t' found found'
    rcases follows.timed.known address t found with base | ⟨none, block, here, time⟩
    · rcases follows'.timed.known address t' found' with base' | ⟨none', -⟩
      · exact Option.some.inj (base.symm.trans base')
      · rw [base] at none'
        cases none'
    rcases follows'.timed.known address t' found' with base' | ⟨-, block', here', time'⟩
    · rw [none] at base'
      cases base'
    · obtain rfl := Option.some.inj (here.symm.trans (reference.trans here'))
      rw [time, time']
  unfold Holds at holds
  cases found : node.txFilter.mapFilterAddress.lookup address with
  | none =>
    cases found' : node'.txFilter.mapFilterAddress.lookup address with
    | none => rfl
    | some t' =>
      rw [found, found'] at holds
      simp at holds
  | some t =>
    cases found' : node'.txFilter.mapFilterAddress.lookup address with
    | none =>
      rw [found, found'] at holds
      simp at holds
    | some t' => rw [times t t' found found']

theorem follows_step (follows : Follows rules node) (a : FilterStep)
    (stepRight : StepRight rules node a) : Follows rules (node.step rules a) :=
  ⟨tracks_step follows.tracks a, (filterRight_step follows.tracks follows.right a).mpr stepRight,
    timed_step follows.tracks follows.right follows.timed a stepRight⟩

end FilterNode

theorem FilterEnv.checkTxFilter_congr (env : FilterEnv) {m m' : AssocMap (List UInt8) Int}
    (same : ∀ address, m.lookup address = m'.lookup address) (tx : CTransaction)
    (nBlockTime : Int) :
    { env with mapFilterAddress := m }.checkTxFilter tx nBlockTime =
      { env with mapFilterAddress := m' }.checkTxFilter tx nBlockTime := by
  have size : m.size = 0 ↔ m'.size = 0 := by
    rw [AssocMap.size_eq_zero_iff, AssocMap.size_eq_zero_iff]
    exact forall_congr' fun address => by rw [same]
  have skips : { env with mapFilterAddress := m }.skips nBlockTime =
      { env with mapFilterAddress := m' }.skips nBlockTime := by
    unfold skips
    simp only [beq_eq_decide, size]
  have filters : { env with mapFilterAddress := m }.filters nBlockTime =
      { env with mapFilterAddress := m' }.filters nBlockTime := by
    funext txDest
    unfold FilterEnv.filters
    simp only [same]
  have inputs : ∀ vin, { env with mapFilterAddress := m }.checkInputs nBlockTime vin =
      { env with mapFilterAddress := m' }.checkInputs nBlockTime vin := by
    intro vin
    induction vin with
    | nil => rfl
    | cons txin vin ih =>
      have one : { env with mapFilterAddress := m }.checkInput nBlockTime txin =
          { env with mapFilterAddress := m' }.checkInput nBlockTime txin := by
        unfold checkInput
        rw [filters]
      rw [checkInputs, checkInputs, one, ih]
  unfold checkTxFilter
  rw [skips, inputs]

/-! ## Runs -/

namespace FilterNode

variable {rules : FilterRules}

/-- A node that has just started. -/
def started (blocks : List CBlock) (sporkValue : BitVec 64) : FilterNode where
  blocks
  sporkValue

/-- The node behind a run. -/
def run (rules : FilterRules) (node : FilterNode) (steps : List FilterStep) : FilterNode :=
  StepRun.run (step rules) node steps

/-- Every step of the run leaves the filter right. -/
def RunRight (rules : FilterRules) (node : FilterNode) (steps : List FilterStep) : Prop :=
  StepRun.AllSteps (step rules) (StepRight rules) node steps

theorem follows_started (blocks : List CBlock) (sporkValue : BitVec 64) :
    Follows rules (started blocks sporkValue) := by
  have empty : ∀ address, ¬ (started blocks sporkValue).Holds address := by
    intro address
    unfold Holds started
    simp
  refine ⟨⟨.inr ⟨rfl, rfl⟩, ?_, ?_⟩, ⟨?_, ?_⟩, ⟨?_, ?_⟩⟩
  · intro on
    cases on
  · exact fun _ address holds => absurd holds (empty address)
  · intro block found
    cases found
  · exact fun _ address holds => absurd holds (empty address)
  · intro address t found
    cases found
  · intro on
    cases on

end FilterNode

open FilterNode in
/-- The filter is right after every part of a run exactly where every step meets its condition, and
nodes on one active chain then check transactions alike. -/
theorem filterRight_iff (rules : FilterRules) (blocks blocks' : List CBlock)
    (sporkValue sporkValue' : BitVec 64) (steps steps' : List FilterStep) :
    ((∀ part, part <+: steps → FilterRight rules (run rules (started blocks sporkValue) part)) ↔
      RunRight rules (started blocks sporkValue) steps) ∧
    (RunRight rules (started blocks sporkValue) steps →
      RunRight rules (started blocks' sporkValue') steps' →
      ∀ node node', node = run rules (started blocks sporkValue) steps →
        node' = run rules (started blocks' sporkValue') steps' →
        node.blocks = node'.blocks → node.sporkValue = node'.sporkValue →
        node.txFilter.txFilterState = true → node'.txFilter.txFilterState = true →
        ∀ (env : FilterEnv) (tx : CTransaction) (nBlockTime : Int),
          { env with mapFilterAddress := node.txFilter.mapFilterAddress }.checkTxFilter tx
              nBlockTime =
            { env with mapFilterAddress := node'.txFilter.mapFilterAddress }.checkTxFilter tx
              nBlockTime) := by
  have start := @follows_started rules
  constructor
  · exact StepRun.forall_prefix_iff_allSteps (I := Tracks rules) (K := FilterRight rules)
      (fun node a tracks => tracks_step tracks a)
      (fun node a tracks right => filterRight_step tracks right a) (start blocks sporkValue).tracks
      (start blocks sporkValue).right
  rintro first second node node' rfl rfl chain spork on on' env tx nBlockTime
  have follows := StepRun.AllSteps.invariant
    (fun node a inv fine => follows_step inv a fine) first (start blocks sporkValue)
  have follows' := StepRun.AllSteps.invariant
    (fun node a inv fine => follows_step inv a fine) second (start blocks' sporkValue')
  exact env.checkTxFilter_congr (follows.lookup_eq follows' chain spork on on') tx nBlockTime

/-! ## A block that is disconnected with its addresses left in the filter -/

def sampleRules : FilterRules where
  params := mainParams
  hash160 _ := []
  base := (∅ : AssocMap (List UInt8) Int).insert [92, 1] 1545731364
  shiftPast sporkMask i := sporkMask.getLsbD (i % 32)

def payingTx (byte : UInt8) : CTransaction :=
  { CTransaction.empty with
    vout := [⟨COIN, getScriptForDestination (some (.keyID (List.replicate 20 byte)))⟩] }

def payingBlock (hash : UInt256) (byte : UInt8) : CBlock where
  nVersion := 4
  hashPrevBlock := 0
  hashMerkleRoot := 0
  nTime := 1600000000
  nBits := 0
  nNonce := 0
  hash
  vtx := [payingTx byte]

def sampleSpork : BitVec 64 := 0x0000000100000001

/-- The filter is built from block 1, which is then disconnected. -/
def leavingSteps : List FilterStep := [.executeSpork sampleSpork, .disconnect]

/-- With block 1 disconnected its address is still in the filter. -/
theorem filter_keeps_disconnected :
    ¬ ∀ (rules : FilterRules) (blocks : List CBlock) (sporkValue : BitVec 64)
      (steps : List FilterStep), FilterNode.FilterRight rules
        (FilterNode.run rules (FilterNode.started blocks sporkValue) steps) := by
  intro claim
  have right := claim sampleRules [payingBlock 1 1, payingBlock 2 2] 0 leavingSteps
  have held : (FilterNode.run sampleRules (FilterNode.started [payingBlock 1 1, payingBlock 2 2] 0)
      leavingSteps).Holds (92 :: List.replicate 20 2) := by
    unfold FilterNode.Holds
    decide +kernel
  have left := right.below rfl _ held
  revert left
  unfold FilterRules.Base
  decide +kernel

/-- A run in which the filter is built above the target and blocks above it come and go. -/
def stayingSteps : List FilterStep :=
  [.executeSpork sampleSpork, .connect (payingBlock 3 3), .disconnect]

theorem stayingSteps_right : FilterNode.RunRight sampleRules
    (FilterNode.started [payingBlock 1 1, payingBlock 2 2] 0) stayingSteps := by
  refine ⟨?_, ?_, ?_, trivial⟩
  · intro block _ found
    obtain rfl := Option.some.inj (show some (payingBlock 2 2) = some block from found)
    refine ⟨fun i tx past shifted found => ?_, ?_⟩
    · have short : i < 1 := (List.getElem?_eq_some_iff.mp found).1
      omega
    rintro ⟨out, first, none⟩
    exfalso
    obtain rfl := Option.some.inj (show some
      ⟨COIN, getScriptForDestination (some (.keyID (List.replicate 20 2)))⟩ = some out from first)
    revert none
    decide +kernel
  · intro _ _ top
    exact absurd top (by decide +kernel)
  · intro _ _ block _ top
    exact absurd top (by decide +kernel)

/-- A run in which the filter is built from the same chain, once. -/
theorem builtSteps_right : FilterNode.RunRight sampleRules
    (FilterNode.started [payingBlock 1 1, payingBlock 2 2] 0) [.executeSpork sampleSpork] :=
  ⟨stayingSteps_right.1, trivial⟩

/-- A node that knows the transactions of blocks 1 and 3 by hash, with the filter behind a run. -/
def filterBehind (steps : List FilterStep) : FilterEnv :=
  { emptyFilter with
    source := { emptySource with
      mempool := ((∅ : AssocMap UInt256 CTransaction).insert 12 { payingTx 2 with hash := 12 }).insert
        13 { payingTx 3 with hash := 13 } }
    mapFilterAddress := (FilterNode.run sampleRules
      (FilterNode.started [payingBlock 1 1, payingBlock 2 2] 0) steps).txFilter.mapFilterAddress }

/-- Spends the output at a filtered address that the transaction of block 1 made, and one that is
not filtered, and pays the filtered address again. -/
def filteredSpend : CTransaction :=
  { payingTx 2 with vin := [{ prevout := ⟨13, 0⟩ }, { prevout := ⟨12, 0⟩ }] }

/-- Both nodes refuse a transaction of a filtered address, and neither refuses the part of it that
spends what is not filtered. -/
theorem filterRight_staying :
    (filterBehind stayingSteps).checkTxFilter filteredSpend 0 =
        (filterBehind [.executeSpork sampleSpork]).checkTxFilter filteredSpend 0 ∧
      (filterBehind stayingSteps).checkTxFilter filteredSpend 0 = some false ∧
      (filterBehind stayingSteps).checkTxFilter
        { filteredSpend with vin := [{ prevout := ⟨13, 0⟩ }] } 0 = some true :=
  ⟨(filterRight_iff sampleRules [payingBlock 1 1, payingBlock 2 2]
    [payingBlock 1 1, payingBlock 2 2] 0 0 stayingSteps [.executeSpork sampleSpork]).2
      stayingSteps_right builtSteps_right _ _ rfl rfl (by rfl) (by rfl) (by rfl) (by rfl)
      (filterBehind stayingSteps) filteredSpend 0, by decide +kernel, by decide +kernel⟩

end Esbcoin
