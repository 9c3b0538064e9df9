import Esbcoin.Validation.RoundTrip

/-!
# The recently spent outputs

`mapStakeSpent` (`src/main.cpp:70, 2116-2117, 2348-2367`) is filled by `ConnectBlock`, which also
drops what has become too old, and emptied by `DisconnectBlock`. The map holds the spends of a
chain at the heights of a *cover*: connecting the block above the cover adds its height and cuts
off what is too far below, disconnecting the highest block takes its height away.
-/

namespace Esbcoin

open List

/-! ## Spends of a chain -/

section Chain

variable (blocks : UInt256 → CBlock)

/-- A block of the chain at this height, by a transaction that is no coinbase, spends `out`. -/
def SpentAt (chain : CChain) (out : COutPoint) (nHeight : Int) : Prop :=
  ∃ (i : Nat) (hash : UInt256), (i : Int) = nHeight ∧ chain.vChain[i]? = some hash ∧
    out ∈ (blocks hash).spentOutPoints

/-- No output is spent at two heights. -/
def UniqueSpends (chain : CChain) : Prop :=
  ∀ out first second, SpentAt blocks chain out first → SpentAt blocks chain out second →
    first = second

/-- The map holds the spends at the heights of the cover. -/
def HoldsSpends (chain : CChain) (mapStakeSpent : AssocMap COutPoint Int)
    (cover : Int → Prop) : Prop :=
  ∀ out nHeight, mapStakeSpent.lookup out = some nHeight ↔
    SpentAt blocks chain out nHeight ∧ cover nHeight

variable {blocks} {chain : CChain} {out : COutPoint} {nHeight : Int}

theorem spentAt_iff_mem {n : Nat} {hash : UInt256} (here : chain.vChain[n]? = some hash) :
    SpentAt blocks chain out n ↔ out ∈ (blocks hash).spentOutPoints := by
  constructor
  · rintro ⟨i, hash', same, here', member⟩
    obtain rfl : i = n := by omega
    obtain rfl := Option.some.inj (here.symm.trans here')
    exact member
  · exact fun member => ⟨n, hash, rfl, here, member⟩

/-- A block on top adds its own spends. -/
theorem spentAt_append {hash : UInt256} :
    SpentAt blocks ⟨chain.vChain ++ [hash]⟩ out nHeight ↔
      SpentAt blocks chain out nHeight ∨
        (nHeight = chain.vChain.length ∧ out ∈ (blocks hash).spentOutPoints) := by
  constructor
  · rintro ⟨i, hash', rfl, here, member⟩
    rcases Nat.lt_or_ge i chain.vChain.length with below | above
    · rw [List.getElem?_append_left below] at here
      exact Or.inl ⟨i, hash', rfl, here, member⟩
    have bound := (List.getElem?_eq_some_iff.mp here).1
    simp only [length_append, length_singleton] at bound
    obtain rfl : i = chain.vChain.length := by omega
    simp only [List.getElem?_concat_length, Option.some.injEq] at here
    subst here
    exact Or.inr ⟨rfl, member⟩
  · rintro (⟨i, hash', rfl, here, member⟩ | ⟨rfl, member⟩)
    · have below := (List.getElem?_eq_some_iff.mp here).1
      exact ⟨i, hash', rfl, by rw [List.getElem?_append_left below, here], member⟩
    · exact ⟨_, hash, rfl, List.getElem?_concat_length, member⟩

/-- Without its tip the chain has the spends below. -/
theorem spentAt_dropLast :
    SpentAt blocks ⟨chain.vChain.dropLast⟩ out nHeight ↔
      SpentAt blocks chain out nHeight ∧ nHeight ≤ chain.height - 1 := by
  unfold SpentAt CChain.height
  simp only [dropLast_eq_take, List.getElem?_take]
  constructor
  · rintro ⟨i, hash, rfl, here, member⟩
    split at here
    · exact ⟨⟨i, hash, rfl, here, member⟩, by omega⟩
    · cases here
  · rintro ⟨⟨i, hash, rfl, here, member⟩, below⟩
    exact ⟨i, hash, rfl, by rw [if_pos (by omega), here], member⟩

end Chain

/-! ## Covers -/

/-- The heights that are left when the blocks above `k` are disconnected. -/
def cutAbove (k : Int) (cover : Int → Prop) : Int → Prop := fun h => cover h ∧ h ≤ k

/-- The heights there are when the blocks above `k` up to `j` are connected, the map being kept
`depth` deep. -/
def spanTo (depth k j : Int) (cover : Int → Prop) : Int → Prop := fun h =>
  if k < j then (cover h ∨ (k < h ∧ h ≤ j)) ∧ j - depth ≤ h else cover h

section Steps

variable {blocks : UInt256 → CBlock} {chain : CChain} {params : CChainParams}
variable {mapStakeSpent : AssocMap COutPoint Int} {cover : Int → Prop} {n : Nat} {hash : UInt256}

theorem lookup_addStakeSpent (block : CBlock) (nHeight : Int) (out : COutPoint) (h : Int) :
    (addStakeSpent params block nHeight mapStakeSpent).lookup out = some h ↔
      nHeight - params.maxReorganizationDepth ≤ h ∧ (mapStakeSpent.lookup out = some h ∨
        mapStakeSpent.lookup out = none ∧ out ∈ block.spentOutPoints ∧ h = nHeight) := by
  have young : (!decide (h < nHeight - params.maxReorganizationDepth)) = true ↔
      nHeight - params.maxReorganizationDepth ≤ h := by simp
  unfold addStakeSpent
  rw [AssocMap.lookup_retain, AssocMap.lookup_insertNewAll, Option.filter_eq_some_iff, young,
    and_comm]
  refine and_congr_right fun _ => ?_
  cases before : mapStakeSpent.lookup out with
  | some old =>
    have kept : (if out ∈ block.spentOutPoints then some ((some old).getD nHeight) else some old) =
        some old := by split <;> rfl
    rw [kept]
    simp
  | none =>
    by_cases member : out ∈ block.spentOutPoints
    · simp [member, eq_comm]
    · simp [member]

section

variable (holds : HoldsSpends blocks chain mapStakeSpent cover)
include holds

theorem HoldsSpends.connect (below : ∀ h, cover h → h < n) (unique : UniqueSpends blocks chain)
    (here : chain.vChain[n]? = some hash) :
    HoldsSpends blocks chain (addStakeSpent params (blocks hash) n mapStakeSpent)
      (spanTo params.maxReorganizationDepth (n - 1) n cover) := by
  intro out h
  have spent : SpentAt blocks chain out n ↔ out ∈ (blocks hash).spentOutPoints :=
    spentAt_iff_mem here
  rw [lookup_addStakeSpent, spanTo, if_pos (by omega), holds]
  constructor
  · rintro ⟨young, ⟨at', covered⟩ | ⟨-, member, rfl⟩⟩
    · exact ⟨at', Or.inl covered, young⟩
    · exact ⟨spent.mpr member, Or.inr ⟨by omega, by omega⟩, young⟩
  rintro ⟨at', covered | ⟨above, atMost⟩, young⟩
  · exact ⟨young, Or.inl ⟨at', covered⟩⟩
  obtain rfl : h = n := by omega
  refine ⟨young, Or.inr ⟨?_, spent.mp at', rfl⟩⟩
  cases before : mapStakeSpent.lookup out with
  | none => rfl
  | some old =>
    obtain ⟨at'', covered⟩ := (holds out old).mp before
    have := unique out _ _ at' at''
    have := below old covered
    omega

theorem HoldsSpends.disconnect (below : ∀ h, cover h → h ≤ n) (unique : UniqueSpends blocks chain)
    (here : chain.vChain[n]? = some hash) {after : AssocMap COutPoint Int}
    (erased : ∀ out, after.lookup out =
      if out ∈ (blocks hash).spentOutPoints then none else mapStakeSpent.lookup out)
    :
    HoldsSpends blocks chain after (cutAbove (n - 1) cover) := by
  intro out h
  have spent : SpentAt blocks chain out n ↔ out ∈ (blocks hash).spentOutPoints :=
    spentAt_iff_mem here
  rw [erased, cutAbove]
  by_cases member : out ∈ (blocks hash).spentOutPoints
  · rw [if_pos member]
    constructor
    · intro none
      cases none
    · rintro ⟨at', -, low⟩
      have := unique out _ _ at' (spent.mpr member)
      omega
  rw [if_neg member, holds]
  constructor
  · rintro ⟨at', covered⟩
    refine ⟨at', covered, ?_⟩
    have := below h covered
    have notTop : h ≠ n := by
      rintro rfl
      exact member (spent.mp at')
    omega
  · exact fun ⟨at', covered, _⟩ => ⟨at', covered⟩

theorem HoldsSpends.of_same {chain' : CChain}
    (same : ∀ out h, cover h → (SpentAt blocks chain' out h ↔ SpentAt blocks chain out h)) :
    HoldsSpends blocks chain' mapStakeSpent cover := by
  intro out h
  rw [holds]
  constructor
  · exact fun ⟨at', covered⟩ => ⟨(same out h covered).mpr at', covered⟩
  · exact fun ⟨at', covered⟩ => ⟨(same out h covered).mp at', covered⟩

theorem HoldsSpends.of_cover {cover' : Int → Prop} (same : ∀ h, cover' h ↔ cover h) :
    HoldsSpends blocks chain mapStakeSpent cover' := by
  intro out h
  rw [holds, same]

end

theorem spanTo_le {depth k j : Int} (below : ∀ h, cover h → h ≤ k) (order : k ≤ j) :
    ∀ h, spanTo depth k j cover h → h ≤ j := by
  intro h covered
  unfold spanTo at covered
  split at covered
  · rcases covered with ⟨old | ⟨-, atMost⟩, -⟩
    · have := below h old
      omega
    · exact atMost
  · have := below h covered
    omega

/-- Connecting one block more. -/
theorem spanTo_succ {depth k j : Int} (order : k ≤ j) (h : Int) :
    spanTo depth k (j + 1) cover h ↔ spanTo depth j (j + 1) (spanTo depth k j cover) h := by
  unfold spanTo
  rw [if_pos (by omega), if_pos (by omega)]
  rcases Int.lt_or_eq_of_le order with below | rfl
  · rw [if_pos below]
    constructor
    · rintro ⟨covered | ⟨above, atMost⟩, young⟩
      · exact ⟨Or.inl ⟨Or.inl covered, by omega⟩, young⟩
      · by_cases top : h = j + 1
        · exact ⟨Or.inr ⟨by omega, by omega⟩, young⟩
        · exact ⟨Or.inl ⟨Or.inr ⟨above, by omega⟩, by omega⟩, young⟩
    · rintro ⟨⟨covered | ⟨above, atMost⟩, -⟩ | ⟨above, atMost⟩, young⟩
      · exact ⟨Or.inl covered, young⟩
      · exact ⟨Or.inr ⟨above, by omega⟩, young⟩
      · exact ⟨Or.inr ⟨by omega, atMost⟩, young⟩
  · rw [if_neg (by omega)]

/-- Disconnecting one block more. -/
theorem cutAbove_succ {k : Int} (h : Int) :
    cutAbove (k - 1) cover h ↔ cutAbove (k - 1) (cutAbove k cover) h := by
  constructor
  · rintro ⟨covered, low⟩
    exact ⟨⟨covered, by omega⟩, low⟩
  · rintro ⟨⟨covered, -⟩, low⟩
    exact ⟨covered, low⟩

end Steps

/-! ## What connecting and disconnecting do to the map -/

/-- There is an undo record for every input. -/
def UndoFits (block : CBlock) (vtxundo : List CTxUndo) : Prop :=
  ∀ pair ∈ block.vtx.zip (none :: vtxundo.map some), pair.1.isCoinBase = false →
    ∃ txundo, pair.2 = some txundo ∧ txundo.vprevout.length = pair.1.vin.length

theorem restoreInputs_mapStakeSpent (t : Disconnecting) (inputs : List (COutPoint × CTxInUndo))
    (out : COutPoint) :
    (t.restoreInputs inputs).mapStakeSpent.lookup out =
      if out ∈ inputs.map Prod.fst then none else t.mapStakeSpent.lookup out := by
  induction inputs with
  | nil => rfl
  | cons input inputs ih =>
    show ((t.restoreInputs inputs).mapStakeSpent.erase input.1).lookup out = _
    rw [AssocMap.lookup_erase_eq, ih]
    by_cases same : out = input.1
    · rw [if_pos same, if_pos (by simp [same])]
    · rw [if_neg same]
      exact if_congr (by simp [same]) rfl rfl

/-- The loop erases the spends of its transactions, and does not fail on undo data that fits. -/
theorem disconnectTransactions_mapStakeSpent (nHeight : Int)
    {given : List (CTransaction × Option CTxUndo)}
    (fits : ∀ pair ∈ given, pair.1.isCoinBase = false →
      ∃ txundo, pair.2 = some txundo ∧ txundo.vprevout.length = pair.1.vin.length)
    (t : Disconnecting) :
    ∃ t', disconnectTransactions nHeight given t = .ok () t' ∧ ∀ out, t'.mapStakeSpent.lookup out =
      if out ∈ ((given.map Prod.fst).filter fun tx => !tx.isCoinBase).flatMap CTransaction.prevouts
      then none else t.mapStakeSpent.lookup out := by
  induction given with
  | nil => exact ⟨t, rfl, fun out => rfl⟩
  | cons pair given ih =>
    obtain ⟨tx, txundo⟩ := pair
    obtain ⟨middle, later, erased⟩ := ih fun pair member => fits pair (mem_cons_of_mem _ member)
    have run : disconnectTransactions nHeight ((tx, txundo) :: given) t =
        disconnectTransaction tx nHeight txundo middle := by
      show EStateM.bind _ _ t = _
      rw [EStateM.bind, later]
    rw [run]
    unfold disconnectTransaction
    cases coinBase : tx.isCoinBase with
    | true =>
      refine ⟨_, rfl, fun out => ?_⟩
      show middle.mapStakeSpent.lookup out = _
      rw [erased]
      exact if_congr (by simp [coinBase]) rfl rfl
    | false =>
      obtain ⟨undo, given', length⟩ := fits (tx, txundo) mem_cons_self coinBase
      obtain rfl : txundo = some undo := given'
      have length : undo.vprevout.length = tx.vin.length := length
      refine ⟨(middle.removeTx tx nHeight).restoreInputs (tx.prevouts.zip undo.vprevout),
        by simp only [Bool.false_eq_true, ↓reduceIte, length, ne_eq, not_true_eq_false],
        fun out => ?_⟩
      have names : (tx.prevouts.zip undo.vprevout).map Prod.fst = tx.prevouts := by
        apply map_fst_zip
        rw [length, CTransaction.prevouts, length_map]
      rw [restoreInputs_mapStakeSpent, names]
      show (if out ∈ tx.prevouts then none else middle.mapStakeSpent.lookup out) = _
      rw [erased]
      simp only [map_cons, coinBase, Bool.not_false, filter_cons_of_pos,
        flatMap_cons, mem_append]
      by_cases own : out ∈ tx.prevouts
      · rw [if_pos own, if_pos (Or.inl own)]
      · rw [if_neg own]
        exact if_congr (by simp [own]) rfl rfl

theorem length_of_loadUndo {env : ConnectEnv} {block : CBlock} {s : ConnectState}
    {vtxundo : List CTxUndo} (h : loadUndo env block s = .ok vtxundo) :
    vtxundo.length + 1 = block.vtx.length := by
  unfold loadUndo at h
  split at h
  · simp only [bind_ok, Except.ok.injEq] at h
    obtain ⟨_, -, hashPrev, -, h⟩ := h
    split at h
    · simp only [bind_ok, Except.ok.injEq] at h
      obtain ⟨_, rfl, _, length, rfl⟩ := h
      exact bne_eq_false_iff_eq.mp (rejectIf_eq_ok.mp length)
    · cases h
  · cases h

/-- `DisconnectBlock` erases the block's spends, or fails before it has changed anything. -/
theorem disconnectBlock_mapStakeSpent (env : ConnectEnv) (block : CBlock) (s : ConnectState)
    (fits : ∀ vtxundo, loadUndo env block s = .ok vtxundo → UndoFits block vtxundo) :
    match disconnectBlock env block s with
    | .ok _ s' => ∀ out, s'.node.mapStakeSpent.lookup out =
        if out ∈ block.spentOutPoints then none else s.node.mapStakeSpent.lookup out
    | .error _ s' => s'.node.mapStakeSpent = s.node.mapStakeSpent := by
  unfold disconnectBlock
  simp only [bind, EStateM.bind, checking]
  cases best : rejectIf (s.pindex.getBlockHash != s.view.hashBlock) .crash with
  | error failure => rfl
  | ok _ =>
    cases undo : loadUndo env block s with
    | error failure => simp only [undo]
    | ok vtxundo =>
      obtain ⟨t, run, erased⟩ := disconnectTransactions_mapStakeSpent s.pindex.nHeight
        (fits vtxundo undo) ⟨s.view.coins, s.node.mapStakeSpent, true⟩
      have names : (block.vtx.zip (none :: vtxundo.map some)).map Prod.fst = block.vtx := by
        apply map_fst_zip
        have := length_of_loadUndo undo
        simp only [length_cons, length_map]
        omega
      rw [names] at erased
      simp only [undo, undoTransactions_ok run, changing]
      exact erased

end Esbcoin
