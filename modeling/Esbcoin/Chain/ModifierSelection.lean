import Esbcoin.Chain.ModifierRuns

/-!
# The blocks that a stake modifier is made of

`ComputeNextStakeModifier` selects a block in each of its rounds (`src/kernel.cpp:199-217`).
`Chosen` says which block a round selects.
-/

namespace Esbcoin

open CBlockIndex IndexRun List

variable {c : StakeContext} {map : BlockMap}

/-- An entry of `vSortedByTimestamp`. -/
def CBlockIndex.timestamped (pindex : CBlockIndex) : Int × UInt256 :=
  (pindex.getBlockTime, pindex.getBlockHash)

/-- `fModifierV2`, which the first of the sorted candidates decides. -/
def fModifierV2 (c : StakeContext) (sorted : List CBlockIndex) : Bool :=
  sorted.head?.any fun pindex => c.modifierUpgradeBlock ≤ pindex.nHeight

/-- The block that a round selects, of the candidates that are not taken: the one with the smallest
selection hash up to the stop time, or the first if all are later. -/
structure Chosen (c : StakeContext) (sorted : List CBlockIndex) (nStakeModifierPrev : UInt64)
    (taken : List UInt256) (stop : Int) (pick : CBlockIndex) : Prop where
  candidate : pick ∈ sorted
  fresh : pick.getBlockHash ∉ taken
  smallest : (pick.getBlockTime ≤ stop ∧ ∀ e ∈ sorted, e.getBlockHash ∉ taken →
      e.getBlockTime ≤ stop → hashSelection c (fModifierV2 c sorted) nStakeModifierPrev pick ≤
        hashSelection c (fModifierV2 c sorted) nStakeModifierPrev e) ∨
    (∀ e ∈ sorted, e.getBlockHash ∉ taken → stop < e.getBlockTime) ∧
      sorted.find? (fun e => !taken.contains e.getBlockHash) = some pick

/-- The candidates are in the order of their times. -/
def InTime (sorted : List CBlockIndex) : Prop :=
  sorted.Pairwise fun e e' => e.getBlockTime ≤ e'.getBlockTime

/-- With a block selected, the loop goes on to the stop time and keeps the smallest hash. -/
theorem selectLoop_best {sorted : List CBlockIndex} (filed : Filed map sorted)
    (inTime : InTime sorted) (taken : List UInt256) (stop : Int) (prev : UInt64) (v2 : Bool)
    (best : CBlockIndex) :
    ∃ pick, selectLoop c map taken stop prev (some v2) (some (hashSelection c v2 prev best, best))
        (sorted.map timestamped) =
        some (some (hashSelection c v2 prev pick, pick)) ∧
      (pick = best ∨ pick ∈ sorted ∧ pick.getBlockHash ∉ taken ∧ pick.getBlockTime ≤ stop) ∧
      hashSelection c v2 prev pick ≤ hashSelection c v2 prev best ∧
      ∀ e ∈ sorted, e.getBlockHash ∉ taken → e.getBlockTime ≤ stop →
        hashSelection c v2 prev pick ≤ hashSelection c v2 prev e := by
  induction sorted generalizing best with
  | nil =>
    refine ⟨best, rfl, Or.inl rfl, BitVec.le_refl _, ?_⟩
    intro e member
    cases member
  | cons e sorted ih =>
    obtain ⟨own, filed⟩ := forall_mem_cons.mp filed
    obtain ⟨later, inTime⟩ := pairwise_cons.mp inTime
    have step := ih filed inTime
    rw [map_cons, selectLoop]
    have found : map.lookup e.timestamped.2 = some e := own
    rw [found]
    dsimp only
    by_cases late : stop < e.getBlockTime
    · -- the rest is later still
      rw [if_pos (by rw [decide_eq_true late]; rfl)]
      refine ⟨best, rfl, Or.inl rfl, BitVec.le_refl _, ?_⟩
      intro e' member _ inStop
      rcases mem_cons.mp member with rfl | member
      · omega
      · have := later e' member
        omega
    rw [if_neg (by rw [decide_eq_false late]; exact Bool.false_ne_true)]
    by_cases isTaken : e.getBlockHash ∈ taken
    · rw [if_pos (contains_iff_mem.mpr isTaken)]
      obtain ⟨pick, run, origin, below, least⟩ := step best
      refine ⟨pick, run, ?_, below, ?_⟩
      · exact origin.imp_right fun inside => ⟨mem_cons_of_mem _ inside.1, inside.2⟩
      · exact forall_mem_cons.mpr ⟨fun free => absurd isTaken free, least⟩
    rw [if_neg fun contained => isTaken (contains_iff_mem.mp contained), Option.getD_some]
    by_cases better : hashSelection c v2 prev e < hashSelection c v2 prev best
    · rw [if_pos (decide_eq_true better)]
      obtain ⟨pick, run, origin, below, least⟩ := step e
      refine ⟨pick, run, ?_, BitVec.le_trans below (BitVec.le_of_lt better), ?_⟩
      · right
        rcases origin with rfl | inside
        · exact ⟨mem_cons_self, isTaken, by omega⟩
        · exact ⟨mem_cons_of_mem _ inside.1, inside.2⟩
      · exact forall_mem_cons.mpr ⟨fun _ _ => below, least⟩
    · rw [if_neg (by rw [decide_eq_false better]; exact Bool.false_ne_true)]
      obtain ⟨pick, run, origin, below, least⟩ := step best
      refine ⟨pick, run, ?_, below, ?_⟩
      · exact origin.imp_right fun inside => ⟨mem_cons_of_mem _ inside.1, inside.2⟩
      · exact forall_mem_cons.mpr
          ⟨fun _ _ => BitVec.le_trans below (BitVec.not_lt.mp better), least⟩

/-- As long as a candidate is not taken, the loop selects one. -/
theorem selectLoop_first {sorted : List CBlockIndex} (filed : Filed map sorted)
    (inTime : InTime sorted) (taken : List UInt256) (stop : Int) (prev : UInt64) (v2 : Bool)
    (free : ∃ e ∈ sorted, e.getBlockHash ∉ taken) :
    ∃ pick, selectLoop c map taken stop prev (some v2) none (sorted.map timestamped) =
        some (some (hashSelection c v2 prev pick, pick)) ∧
      pick ∈ sorted ∧ pick.getBlockHash ∉ taken ∧
      ((pick.getBlockTime ≤ stop ∧ ∀ e ∈ sorted, e.getBlockHash ∉ taken → e.getBlockTime ≤ stop →
          hashSelection c v2 prev pick ≤ hashSelection c v2 prev e) ∨
        (∀ e ∈ sorted, e.getBlockHash ∉ taken → stop < e.getBlockTime) ∧
          sorted.find? (fun e => !taken.contains e.getBlockHash) = some pick) := by
  induction sorted with
  | nil =>
    obtain ⟨e, member, -⟩ := free
    cases member
  | cons e sorted ih =>
    obtain ⟨own, filed⟩ := forall_mem_cons.mp filed
    obtain ⟨later, inTime⟩ := pairwise_cons.mp inTime
    have found : map.lookup e.timestamped.2 = some e := own
    rw [map_cons, selectLoop, found]
    dsimp only
    rw [if_neg (by rw [Option.isSome_none, Bool.false_and]; exact Bool.false_ne_true),
      Option.getD_some]
    by_cases isTaken : e.getBlockHash ∈ taken
    · have contained := contains_iff_mem.mpr isTaken
      rw [if_pos contained, List.find?_cons_of_neg (by rw [contained]; decide)]
      have free : ∃ e ∈ sorted, e.getBlockHash ∉ taken := by
        obtain ⟨e', member, untaken⟩ := free
        rcases mem_cons.mp member with rfl | member
        · exact absurd isTaken untaken
        · exact ⟨e', member, untaken⟩
      obtain ⟨pick, run, member, fresh, choice⟩ := ih filed inTime free
      refine ⟨pick, run, mem_cons_of_mem _ member, fresh, choice.imp ?_ ?_⟩
      · rintro ⟨inStop, least⟩
        exact ⟨inStop, forall_mem_cons.mpr ⟨fun untaken => absurd isTaken untaken, least⟩⟩
      · rintro ⟨all, first⟩
        exact ⟨forall_mem_cons.mpr ⟨fun untaken => absurd isTaken untaken, all⟩, first⟩
    have notContained : taken.contains e.getBlockHash = false :=
      Bool.eq_false_iff.mpr fun contained => isTaken (contains_iff_mem.mp contained)
    rw [notContained, if_neg Bool.false_ne_true, if_pos rfl,
      List.find?_cons_of_pos (by rw [notContained]; rfl)]
    obtain ⟨pick, run, origin, below, least⟩ :=
      selectLoop_best (c := c) filed inTime taken stop prev v2 e
    refine ⟨pick, run, ?_⟩
    by_cases late : stop < e.getBlockTime
    · -- all are later, so that the first is kept
      have kept : pick = e := by
        refine origin.resolve_right ?_
        rintro ⟨member, -, inStop⟩
        have := later pick member
        omega
      subst kept
      refine ⟨mem_cons_self, isTaken, Or.inr ⟨?_, rfl⟩⟩
      intro e' member _
      rcases mem_cons.mp member with rfl | member
      · exact late
      · have := later e' member
        omega
    · have inside : pick ∈ e :: sorted ∧ pick.getBlockHash ∉ taken ∧
          pick.getBlockTime ≤ stop := by
        rcases origin with rfl | ⟨member, rest⟩
        · exact ⟨mem_cons_self, isTaken, by omega⟩
        · exact ⟨mem_cons_of_mem _ member, rest⟩
      exact ⟨inside.1, inside.2.1,
        Or.inl ⟨inside.2.2, forall_mem_cons.mpr ⟨fun _ _ => below, least⟩⟩⟩

/-- A round selects a block as long as one is left. -/
theorem round_selects {sorted : List CBlockIndex} (filed : Filed map sorted)
    (inTime : InTime sorted) (taken : List UInt256) (stop : Int) (prev : UInt64)
    (free : ∃ e ∈ sorted, e.getBlockHash ∉ taken) :
    ∃ hashBest pick, selectLoop c map taken stop prev none none
        (sorted.map timestamped) = some (some (hashBest, pick)) ∧
      Chosen c sorted prev taken stop pick := by
  have first : selectLoop c map taken stop prev none none (sorted.map timestamped) =
      selectLoop c map taken stop prev (some (fModifierV2 c sorted)) none
        (sorted.map timestamped) := by
    cases sorted with
    | nil => rfl
    | cons e sorted =>
      have found : map.lookup e.timestamped.2 = some e := filed e mem_cons_self
      rw [map_cons, selectLoop, selectLoop, found]
      rfl
  obtain ⟨pick, run, member, fresh, choice⟩ :=
    selectLoop_first (c := c) filed inTime taken stop prev (fModifierV2 c sorted) free
  exact ⟨_, pick, first.trans run, member, fresh, choice⟩

/-! ## The rounds -/

/-- `nSelectionIntervalStop` behind this many rounds. -/
def stopBehind (nSelectionIntervalStart : Int) (rounds : Nat) : Int :=
  nSelectionIntervalStart + ((List.range rounds).map getStakeModifierSelectionIntervalSection).sum

theorem stopBehind_succ (start : Int) (rounds : Nat) :
    stopBehind start (rounds + 1) =
      stopBehind start rounds + getStakeModifierSelectionIntervalSection rounds := by
  unfold stopBehind
  rw [range_succ, map_append, sum_append, map_singleton, sum_singleton]
  omega

section Rounds

variable (c) (map) (sorted : List CBlockIndex) (nStakeModifierPrev : UInt64)
  (nSelectionIntervalStart : Int)

/-- The hashes of the blocks that are selected so far, as the rounds hold them. -/
def takenBy (picks : List CBlockIndex) : List UInt256 :=
  (picks.map CBlockIndex.getBlockHash).reverse

/-- A round selects `pick`, as `Chosen` says. -/
structure RoundSelects (before : List CBlockIndex) (pick : CBlockIndex) : Prop where
  selects : ∃ hashBest, selectLoop c map (takenBy before)
    (stopBehind nSelectionIntervalStart (before.length + 1)) nStakeModifierPrev none none
    (sorted.map timestamped) = some (some (hashBest, pick))
  chosen : Chosen c sorted nStakeModifierPrev (takenBy before)
    (stopBehind nSelectionIntervalStart (before.length + 1)) pick

/-- Some rounds have selected these blocks and made these bits of them. -/
structure RoundsSelect (picks : List CBlockIndex) (nStakeModifierNew : UInt64) : Prop where
  selects : ∀ nRound pick, picks[nRound]? = some pick →
    RoundSelects c map sorted nStakeModifierPrev nSelectionIntervalStart (picks.take nRound) pick
  distinct : (picks.map CBlockIndex.getBlockHash).Nodup
  bits : ∀ nRound, nStakeModifierNew.toNat.testBit nRound = true ↔
    ∃ pick, picks[nRound]? = some pick ∧ pick.getStakeEntropyBit = 1

end Rounds

variable {picks : List CBlockIndex} {hash : UInt256} {e : CBlockIndex}

theorem mem_takenBy :
    hash ∈ takenBy picks ↔ hash ∈ picks.map CBlockIndex.getBlockHash := mem_reverse

theorem takenBy_append (picks : List CBlockIndex) (pick : CBlockIndex) :
    takenBy (picks ++ [pick]) = pick.getBlockHash :: takenBy picks := by
  unfold takenBy
  rw [map_append, reverse_append]
  rfl

theorem testBit_entropy (nStakeModifierNew : UInt64) (pindex : CBlockIndex) {nRound : Nat}
    (bound : nRound < 64) (i : Nat) :
    (nStakeModifierNew ||| pindex.getStakeEntropyBit <<< UInt64.ofNat nRound).toNat.testBit i =
        true ↔
      nStakeModifierNew.toNat.testBit i = true ∨ i = nRound ∧ pindex.getStakeEntropyBit = 1 := by
  have small : pindex.getStakeEntropyBit.toNat = 0 ∨ pindex.getStakeEntropyBit.toNat = 1 := by
    rw [getStakeEntropyBit, UInt64.toNat_and, UInt64.toNat_one, Nat.and_one_is_mod]
    omega
  have amount : (UInt64.ofNat nRound).toNat % 64 = nRound := by
    rw [UInt64.toNat_ofNat']
    omega
  rw [UInt64.toNat_or, UInt64.toNat_shiftLeft, amount, Nat.testBit_or, Bool.or_eq_true]
  refine or_congr_right ?_
  rcases small with zero | one
  · have differs : ¬ pindex.getStakeEntropyBit = 1 := by
      rintro equal
      rw [equal] at zero
      cases zero
    rw [zero, Nat.zero_shiftLeft, Nat.zero_mod, Nat.zero_testBit]
    constructor
    · intro set
      cases set
    · rintro ⟨-, equal⟩
      exact absurd equal differs
  · have equal : pindex.getStakeEntropyBit = 1 := UInt64.toNat_inj.mp one
    have power : 1 <<< nRound % 2 ^ 64 = 2 ^ nRound := by
      rw [Nat.one_shiftLeft]
      exact Nat.mod_eq_of_lt (Nat.pow_lt_pow_right (by decide) bound)
    rw [one, power, Nat.testBit_two_pow, decide_eq_true_iff]
    exact ⟨fun same => ⟨same.symm, equal⟩, fun both => both.1.symm⟩

theorem rounds_nil (sorted : List CBlockIndex) (prev : UInt64) (start : Int) :
    RoundsSelect c map sorted prev start [] 0 where
  selects _ _ found := by cases found
  distinct := nodup_nil
  bits nRound := by
    rw [UInt64.toNat_zero, Nat.zero_testBit]
    constructor
    · intro set
      cases set
    · rintro ⟨_, found, -⟩
      cases found

theorem rounds_step {sorted : List CBlockIndex} {prev new : UInt64} {start : Int}
    {pick : CBlockIndex} (rounds : RoundsSelect c map sorted prev start picks new)
    (round : RoundSelects c map sorted prev start picks pick) (bound : picks.length < 64) :
    RoundsSelect c map sorted prev start (picks ++ [pick])
      (new ||| pick.getStakeEntropyBit <<< UInt64.ofNat picks.length) where
  selects nRound found foundAt := by
    rcases Nat.lt_or_ge nRound picks.length with old | new
    · rw [List.getElem?_append_left old] at foundAt
      rw [take_append_of_le_length (Nat.le_of_lt old)]
      exact rounds.selects nRound found foundAt
    rw [List.getElem?_append_right new, List.getElem?_singleton] at foundAt
    split at foundAt
    · have last : nRound = picks.length := by omega
      obtain rfl := Option.some.inj foundAt
      rw [last, take_left' rfl]
      exact round
    · cases foundAt
  distinct := by
    rw [map_append, nodup_append]
    refine ⟨rounds.distinct, nodup_singleton _, ?_⟩
    intro hash member hash' last equal
    obtain rfl := mem_singleton.mp last
    exact round.chosen.fresh (mem_takenBy.mpr (equal ▸ member))
  bits nRound := by
    rw [testBit_entropy _ _ bound, rounds.bits]
    rcases Nat.lt_trichotomy nRound picks.length with old | rfl | new
    · rw [List.getElem?_append_left old]
      constructor
      · rintro (found | ⟨last, -⟩)
        · exact found
        · omega
      · exact Or.inl
    · rw [List.getElem?_eq_none (le_refl _), List.getElem?_append_right (le_refl _), Nat.sub_self]
      constructor
      · rintro (⟨_, found, -⟩ | ⟨-, one⟩)
        · cases found
        · exact ⟨pick, rfl, one⟩
      · rintro ⟨pick', found, one⟩
        obtain rfl := Option.some.inj found
        exact Or.inr ⟨rfl, one⟩
    · rw [List.getElem?_eq_none (by omega), List.getElem?_eq_none
        (by rw [length_append, length_singleton]; omega)]
      constructor
      · rintro (⟨_, found, -⟩ | ⟨last, -⟩)
        · cases found
        · omega
      · rintro ⟨_, found, -⟩
        cases found

/-- A candidate is left as long as there are more of them than rounds so far. -/
theorem candidate_left {sorted : List CBlockIndex}
    (distinct : (sorted.map CBlockIndex.getBlockHash).Nodup) (more : picks.length < sorted.length) :
    ∃ e ∈ sorted, e.getBlockHash ∉ takenBy picks := by
  by_contra none
  push Not at none
  have subset : sorted.map CBlockIndex.getBlockHash ⊆ takenBy picks := by
    intro hash member
    obtain ⟨e, inside, rfl⟩ := mem_map.mp member
    exact none e inside
  have short := (subperm_of_subset distinct subset).length_le
  rw [length_map, takenBy, length_reverse, length_map] at short
  omega

/-- No round fails. -/
theorem modifierRounds_select {sorted : List CBlockIndex} (filed : Filed map sorted)
    (inTime : InTime sorted) (distinct : (sorted.map CBlockIndex.getBlockHash).Nodup)
    (prev : UInt64) (start : Int) (rounds : Nat) {new : UInt64}
    (sofar : RoundsSelect c map sorted prev start picks new)
    (enough : picks.length + rounds ≤ sorted.length) (bound : picks.length + rounds ≤ 64) :
    ∃ picks' new', modifierRounds c map (sorted.map timestamped) prev
        (List.range' picks.length rounds) (takenBy picks) (stopBehind start picks.length) new =
        some new' ∧
      picks'.length = picks.length + rounds ∧
      RoundsSelect c map sorted prev start picks' new' := by
  induction rounds generalizing picks new with
  | zero => exact ⟨picks, new, rfl, rfl, sofar⟩
  | succ rounds ih =>
    obtain ⟨hashBest, pick, run, chosen⟩ := round_selects (c := c) filed inTime (takenBy picks)
      (stopBehind start (picks.length + 1)) prev (candidate_left distinct (by omega))
    have length : (picks ++ [pick]).length = picks.length + 1 := length_append
    have next := rounds_step sofar ⟨⟨hashBest, run⟩, chosen⟩ (by omega)
    obtain ⟨picks', new', rest, length', final⟩ := ih next (by omega) (by omega)
    refine ⟨picks', new', ?_, by omega, final⟩
    rw [length, takenBy_append] at rest
    rw [range'_succ, modifierRounds, ← stopBehind_succ, run]
    exact rest

/-! ## The candidates -/

/-- `nSelectionIntervalStart` (`kernel.cpp:184`). -/
def selectionIntervalStart (prev : CBlockIndex) : Int :=
  prev.getBlockTime / getIntervalVersion * getIntervalVersion - getStakeModifierSelectionInterval

/-- The blocks of the selection interval, the last one first. -/
def candidates (chain : List CBlockIndex) (nSelectionIntervalStart : Int) : List CBlockIndex :=
  chain.takeWhile fun pindex => nSelectionIntervalStart ≤ pindex.getBlockTime

/-- They are sorted by time, and by hash where times are equal. -/
def sortedCandidates (chain : List CBlockIndex) (nSelectionIntervalStart : Int) :
    List CBlockIndex :=
  (candidates chain nSelectionIntervalStart).reverse.mergeSort fun e e' =>
    beforeCandidate e.timestamped e'.timestamped

theorem mem_sortedCandidates {chain : List CBlockIndex} {start : Int} :
    e ∈ sortedCandidates chain start ↔ e ∈ candidates chain start := by
  rw [sortedCandidates, mem_mergeSort, mem_reverse]

theorem length_sortedCandidates (chain : List CBlockIndex) (start : Int) :
    (sortedCandidates chain start).length = (candidates chain start).length := by
  rw [sortedCandidates, length_mergeSort, length_reverse]

/-- These are the pairs that are sorted. -/
theorem timestamped_sortedCandidates (chain : List CBlockIndex) (start : Int) :
    (sortedCandidates chain start).map timestamped =
      ((candidates chain start).map timestamped).reverse.mergeSort
        beforeCandidate := by
  have sorts := map_mergeSort (r := fun e e' => beforeCandidate e.timestamped e'.timestamped)
    (s := beforeCandidate) (f := timestamped)
    (l := (candidates chain start).reverse) fun _ _ _ _ => rfl
  rw [sortedCandidates, sorts, map_reverse]

theorem beforeCandidate_trans (a b d : Int × UInt256) (first : beforeCandidate a b = true)
    (second : beforeCandidate b d = true) : beforeCandidate a d = true := by
  unfold beforeCandidate at *
  simp only [Bool.or_eq_true, Bool.and_eq_true, decide_eq_true_eq, beq_iff_eq] at *
  rcases first with first | ⟨first, low⟩
  · left
    omega
  rcases second with second | ⟨second, high⟩
  · left
    omega
  · exact Or.inr ⟨first.trans second, BitVec.le_trans low high⟩

theorem beforeCandidate_total (a b : Int × UInt256) :
    (beforeCandidate a b || beforeCandidate b a) = true := by
  unfold beforeCandidate
  simp only [Bool.or_eq_true, Bool.and_eq_true, decide_eq_true_eq, beq_iff_eq]
  rcases Int.lt_trichotomy a.1 b.1 with first | same | second
  · exact Or.inl (Or.inl first)
  · rcases BitVec.le_total a.2 b.2 with low | high
    · exact Or.inl (Or.inr ⟨same, low⟩)
    · exact Or.inr (Or.inr ⟨same.symm, high⟩)
  · exact Or.inr (Or.inl second)

theorem inTime_sortedCandidates (chain : List CBlockIndex) (start : Int) :
    InTime (sortedCandidates chain start) := by
  have ordered : (sortedCandidates chain start).Pairwise fun e e' =>
      beforeCandidate e.timestamped e'.timestamped = true :=
    pairwise_mergeSort
      (fun e e' e'' =>
        beforeCandidate_trans e.timestamped e'.timestamped e''.timestamped)
      (fun e e' => beforeCandidate_total e.timestamped e'.timestamped) _
  refine ordered.imp ?_
  intro e e' before
  unfold beforeCandidate at before
  simp only [Bool.or_eq_true, Bool.and_eq_true, decide_eq_true_eq, beq_iff_eq] at before
  have times : e.timestamped.1 ≤ e'.timestamped.1 := by omega
  exact times

/-- The chain goes down height by height. -/
theorem chain_descends (grounded : Grounded map) (found : map.lookup hash = some e) :
    (map.chain hash).Pairwise (fun e e' => e'.nHeight < e.nHeight) ∧
      ∀ e' ∈ map.chain hash, e'.nHeight ≤ e.nHeight := by
  induction hash, e, found using grounded_induction grounded with
  | root hash e found prev =>
    rw [chain_of_lookup grounded found, behind, prev]
    exact ⟨pairwise_singleton _ _, forall_mem_singleton.mpr (Int.le_refl _)⟩
  | above hash e hashPrev p found prev foundPrev height ih =>
    rw [chain_of_lookup grounded found, behind, prev]
    have below : ∀ e' ∈ map.chain hashPrev, e'.nHeight < e.nHeight := by
      intro e' member
      have low := ih.2 e' member
      omega
    exact ⟨pairwise_cons.mpr ⟨below, ih.1⟩,
      forall_mem_cons.mpr ⟨Int.le_refl _, fun e' member => Int.le_of_lt (below e' member)⟩⟩

theorem chain_distinct (grounded : Grounded map) (found : map.lookup hash = some e) :
    ((map.chain hash).map CBlockIndex.getBlockHash).Nodup := by
  have filed := filed_chain grounded found
  refine List.Nodup.map_on ?_ ((chain_descends grounded found).1.imp ?_)
  · intro e member e' member' same
    have own := filed e member
    rw [same, filed e' member'] at own
    exact (Option.some.inj own).symm
  · rintro e e' lower rfl
    omega

/-- The next modifier is made of the blocks that its rounds select: no round fails, they select
different blocks, each the chosen one of those that are left, and each gives its bit. -/
theorem next_modifier_selects (grounded : Grounded map) {hash : UInt256} {prev : CBlockIndex}
    (found : map.lookup hash = some prev) (above : prev.nHeight ≠ 0) {nStakeModifier : UInt64}
    {nModifierTime : Int}
    (last : getLastStakeModifier (map.chain hash) = some (nStakeModifier, nModifierTime))
    (due : nModifierTime / getIntervalVersion < prev.getBlockTime / getIntervalVersion)
    (literal : UInt64) :
    ∃ picks nStakeModifierNew, computeNextStakeModifier c map literal (map.chain hash) =
        (nStakeModifierNew, true) ∧
      picks.length = min 64 (candidates (map.chain hash) (selectionIntervalStart prev)).length ∧
      RoundsSelect c map (sortedCandidates (map.chain hash) (selectionIntervalStart prev))
        nStakeModifier (selectionIntervalStart prev) picks nStakeModifierNew := by
  have sub : (candidates (map.chain hash) (selectionIntervalStart prev)).Sublist
      (map.chain hash) := takeWhile_sublist _
  have filed : Filed map (sortedCandidates (map.chain hash) (selectionIntervalStart prev)) :=
    fun e member => filed_chain grounded found e (sub.subset (mem_sortedCandidates.mp member))
  have distinct : ((sortedCandidates (map.chain hash) (selectionIntervalStart prev)).map
      CBlockIndex.getBlockHash).Nodup := by
    have perm : (sortedCandidates (map.chain hash) (selectionIntervalStart prev)).Perm
        (candidates (map.chain hash) (selectionIntervalStart prev)) :=
      (mergeSort_perm _ _).trans (reverse_perm _)
    exact (perm.map _).nodup_iff.mpr ((chain_distinct grounded found).sublist (sub.map _))
  have length := length_sortedCandidates (map.chain hash) (selectionIntervalStart prev)
  obtain ⟨picks, nStakeModifierNew, run, count, rounds⟩ :=
    modifierRounds_select (c := c) filed (inTime_sortedCandidates _ _) distinct nStakeModifier
      (selectionIntervalStart prev)
      (min 64 (candidates (map.chain hash) (selectionIntervalStart prev)).length)
      (rounds_nil _ nStakeModifier _) (by rw [length_nil]; omega)
      (by rw [length_nil]; omega)
  refine ⟨picks, nStakeModifierNew, ?_, by rw [length_nil] at count; omega, rounds⟩
  have run' : modifierRounds c map ((sortedCandidates (map.chain hash)
      (selectionIntervalStart prev)).map timestamped) nStakeModifier
      (List.range (min 64 (candidates (map.chain hash) (selectionIntervalStart prev)).length)) []
      (selectionIntervalStart prev) 0 = some nStakeModifierNew := by
    have start : stopBehind (selectionIntervalStart prev) 0 = selectionIntervalStart prev :=
      Int.add_zero _
    rw [length_nil, start, ← range_eq_range'] at run
    exact run
  have lengths : (((candidates (map.chain hash) (selectionIntervalStart prev)).map
      timestamped).reverse.mergeSort beforeCandidate).length =
      (candidates (map.chain hash) (selectionIntervalStart prev)).length := by
    rw [length_mergeSort, length_reverse, length_map]
  rw [timestamped_sortedCandidates] at run'
  rw [chain_of_lookup grounded found] at last run' lengths ⊢
  rw [computeNextStakeModifier, if_neg above, last]
  dsimp only
  rw [if_neg (by omega)]
  unfold candidates selectionIntervalStart at run' lengths
  unfold timestamped at run' lengths
  rw [lengths, run']

def sampleSelection : IndexRun :=
  ⟨7, [.add (sampleHeader 2 1 60), .add (sampleHeader 3 2 200)]⟩

def sampleSelectionMap : BlockMap :=
  (sampleSelection.node sampleStake (sampleHeader 1 0 0)).mapBlockIndex

theorem next_modifier_selects_sample :
    ∃ picks nStakeModifierNew, computeNextStakeModifier sampleStake sampleSelectionMap 7
        (sampleSelectionMap.chain 3) = (nStakeModifierNew, true) ∧
      picks.length = min 64
        (candidates (sampleSelectionMap.chain 3) (180 - getStakeModifierSelectionInterval)).length ∧
      RoundsSelect sampleStake sampleSelectionMap
        (sortedCandidates (sampleSelectionMap.chain 3) (180 - getStakeModifierSelectionInterval)) 7
        (180 - getStakeModifierSelectionInterval) picks nStakeModifierNew := by
  have grounded : Grounded sampleSelectionMap :=
    (made_run sampleStake (sampleHeader 1 0 0) sampleSelection).grounded
  have last : getLastStakeModifier (sampleSelectionMap.chain 3) = some (7, 60) := by
    decide +kernel
  have due : (60 : Int) / getIntervalVersion < 200 / getIntervalVersion := by decide
  obtain ⟨prev, found, above, time⟩ : ∃ prev, sampleSelectionMap.lookup 3 = some prev ∧
      prev.nHeight ≠ 0 ∧ prev.getBlockTime = 200 := ⟨_, rfl, by decide +kernel, by decide +kernel⟩
  have start : selectionIntervalStart prev = 180 - getStakeModifierSelectionInterval := by
    rw [selectionIntervalStart, time]
    decide +kernel
  rw [← start]
  exact next_modifier_selects grounded found above last (time ▸ due) 7

end Esbcoin
