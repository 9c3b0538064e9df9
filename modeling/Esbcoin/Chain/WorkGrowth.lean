import Esbcoin.Chain.BlockTree
import Esbcoin.CompactValue

namespace Esbcoin

open CBlockIndex CTransaction AssocMap BitVec

/-! ## The work of a target -/

/-- The result of `GetBlockProof` in 256 bits (`pow.cpp:148-161`). -/
def blockProof (nBits : UInt32) : UInt256 :=
  let bnTarget := setCompact nBits
  if compactNegative nBits || compactOverflow nBits || bnTarget == 0 then 0
  else ~~~bnTarget / (bnTarget + 1) + 1

/-- The bits stand for a target that is not zero and does not overflow. -/
structure HasTarget (nBits : UInt32) : Prop where
  nonzero : compactValue nBits ≠ 0
  fits : compactOverflow nBits = false

/-- The work of a target over the integers. -/
def exactProof (nBits : UInt32) : Nat := 2 ^ 256 / (compactValue nBits + 1)

theorem blockProof_toNat (nBits : UInt32) : (blockProof nBits).toNat = getBlockProof nBits := by
  unfold blockProof getBlockProof
  by_cases none : (compactNegative nBits || compactOverflow nBits || setCompact nBits == 0) = true
  · rw [if_pos none, if_pos none]
    rfl
  rw [if_neg none, if_neg none]
  have nonzero : (setCompact nBits).toNat ≠ 0 := by
    intro zero
    apply none
    rw [beq_iff_eq.mpr (eq_of_toNat_eq zero), Bool.or_true]
  generalize setCompact nBits = bnTarget at nonzero
  by_cases top : bnTarget.toNat + 1 = 2 ^ 256
  · have complement : (~~~bnTarget).toNat = 0 := by
      rw [toNat_not]
      omega
    rw [toNat_add, toNat_udiv, complement, Nat.zero_div,
      show 2 ^ 256 - 1 - bnTarget.toNat = 0 by omega, Nat.zero_div]
    rfl
  have next : (bnTarget + 1).toNat = bnTarget.toNat + 1 := by
    rw [toNat_add]
    exact Nat.mod_eq_of_lt (by show bnTarget.toNat + 1 < 2 ^ 256; omega)
  have half : (2 ^ 256 - 1 - bnTarget.toNat) / (bnTarget.toNat + 1) ≤
      (2 ^ 256 - 1 - bnTarget.toNat) / 2 := Nat.div_le_div_left (by omega) (by decide)
  rw [toNat_add, toNat_udiv, toNat_not, next]
  exact Nat.mod_eq_of_lt (by
    show (2 ^ 256 - 1 - bnTarget.toNat) / (bnTarget.toNat + 1) + 1 < 2 ^ 256
    omega)

namespace HasTarget

variable {nBits : UInt32} (target : HasTarget nBits)
include target

theorem setCompact_toNat : (setCompact nBits).toNat = compactValue nBits := by
  rw [Esbcoin.setCompact_toNat,
    Nat.mod_eq_of_lt ((compactOverflow_eq_false_iff nBits).mp target.fits)]

theorem exactProof_pos : 0 < exactProof nBits := by
  have := (compactOverflow_eq_false_iff nBits).mp target.fits
  exact Nat.div_pos (by omega) (by omega)

/-- The expression of the source rounds the quotient of `2 ^ 256` down. -/
theorem getBlockProof_eq :
    getBlockProof nBits = if compactNegative nBits then 0 else exactProof nBits := by
  have value := target.setCompact_toNat
  have nonzero : (setCompact nBits == 0) = false := by
    rw [beq_eq_false_iff_ne, ne_eq, ← toNat_inj, value]
    exact target.nonzero
  unfold getBlockProof exactProof
  dsimp only
  rw [target.fits, nonzero, Bool.or_false, Bool.or_false, value]
  by_cases negative : compactNegative nBits = true
  · rw [if_pos negative, if_pos negative]
  have round : 2 ^ 256 / (compactValue nBits + 1) =
      (2 ^ 256 - (compactValue nBits + 1)) / (compactValue nBits + 1) + 1 :=
    Nat.div_eq_sub_div (Nat.succ_pos _) (by omega)
  rw [if_neg negative, if_neg negative, round, Nat.sub_sub, Nat.add_comm 1]

end HasTarget

/-! ## What a new entry has -/

namespace BlockTree

/-- `nChainWork` of the entry filed under a hash, in 256 bits. -/
def workOf (tree : BlockTree) (hash : UInt256) : UInt256 :=
  BitVec.ofNat 256 (((tree.mapBlockIndex.lookup hash).map nChainWork).getD 0)

/-- `bnChainTrust` of the entry filed under a hash. -/
def trustOf (tree : BlockTree) (hash : UInt256) : UInt256 :=
  (tree.bnChainTrust.lookup hash).getD 0

/-- The work of a block is its parent's and exactly its own on top, and both its work and its trust
are above its parent's. -/
def Grows (tree : BlockTree) (block : CBlock) : Prop :=
  (tree.workOf block.getHash).toNat =
      (tree.workOf block.hashPrevBlock).toNat + exactProof block.nBits ∧
    tree.workOf block.hashPrevBlock < tree.workOf block.getHash ∧
    tree.trustOf block.hashPrevBlock < tree.trustOf block.getHash

variable (c : StakeContext) {tree : BlockTree} {block : CBlock}

section Added

variable (fresh : tree.mapBlockIndex.lookup block.getHash = none)
  (known : tree.mapBlockIndex.contains block.hashPrevBlock = true)
include fresh known

theorem index_added :
    ∃ pindexNew pprev, tree.mapBlockIndex.lookup block.hashPrevBlock = some pprev ∧
      pindexNew.nChainWork = pprev.nChainWork + getBlockProof block.nBits ∧
      (tree.addToBlockIndex c block).mapBlockIndex =
        tree.mapBlockIndex.insert block.getHash pindexNew ∧
      (tree.addToBlockIndex c block).bnChainTrust =
        tree.bnChainTrust.insert block.getHash
          (tree.trustOf block.hashPrevBlock + (ofBlock block).getBlockTrust) := by
  obtain ⟨pprev, found⟩ := (contains_iff _ _).mp known
  refine ⟨tree.toIndexNode.newEntry c block pprev, pprev, found, rfl, ?_, ?_⟩
  · show (tree.toIndexNode.addToBlockIndex c block).mapBlockIndex = _
    unfold IndexNode.addToBlockIndex
    rw [fresh, found]
  · unfold addToBlockIndex
    rw [fresh, found]
    rfl

/-- The code adds the two numbers in 256 bits. -/
theorem workOf_added :
    (tree.addToBlockIndex c block).workOf block.getHash =
      tree.workOf block.hashPrevBlock + blockProof block.nBits := by
  obtain ⟨pindexNew, pprev, found, work, index, -⟩ := index_added c fresh known
  have own : BitVec.ofNat 256 (getBlockProof block.nBits) = blockProof block.nBits := by
    rw [← blockProof_toNat, ofNat_toNat, setWidth_eq]
  unfold workOf
  rw [index, lookup_insert_eq, if_pos rfl, found, Option.map_some, Option.map_some,
    Option.getD_some, Option.getD_some, work, ofNat_add, own]

theorem trustOf_added :
    (tree.addToBlockIndex c block).trustOf block.getHash =
      tree.trustOf block.hashPrevBlock + (ofBlock block).getBlockTrust := by
  obtain ⟨-, -, -, -, -, trust⟩ := index_added c fresh known
  rw [trustOf, trust, lookup_insert_eq, if_pos rfl, Option.getD_some]

/-- The other entries are left alone. -/
theorem kept_added {hash : UInt256} (other : tree.mapBlockIndex.contains hash = true) :
    (tree.addToBlockIndex c block).mapBlockIndex.contains hash = true ∧
      (tree.addToBlockIndex c block).workOf hash = tree.workOf hash ∧
      (tree.addToBlockIndex c block).trustOf hash = tree.trustOf hash := by
  obtain ⟨pindexNew, pprev, -, -, index, trust⟩ := index_added c fresh known
  have ne : hash ≠ block.getHash := by
    rintro rfl
    rw [(contains_eq_false_iff _ _).mpr fresh] at other
    cases other
  refine ⟨?_, ?_, ?_⟩
  · rw [index, contains_insert, other, Bool.or_true]
  · rw [workOf, index, lookup_insert_eq, if_neg ne, workOf]
  · rw [trustOf, trust, lookup_insert_eq, if_neg ne, trustOf]

end Added

theorem getBlockTrust_pos_iff (target : HasTarget block.nBits) :
    0 < (ofBlock block).getBlockTrust.toNat ↔ block.isProofOfWork = true := by
  have nonzero : setCompact (ofBlock block).nBits ≠ 0 := by
    rw [ne_eq, ← toNat_inj]
    show ¬ (setCompact block.nBits).toNat = 0
    rw [target.setCompact_toNat]
    exact target.nonzero
  unfold getBlockTrust
  rw [if_neg nonzero]
  show 0 < (if block.isProofOfStake = true then (0 : UInt256) else _).toNat ↔
    (!block.isProofOfStake) = true
  cases stake : block.isProofOfStake with
  | true =>
    rw [if_pos rfl]
    exact iff_of_false (Nat.lt_irrefl 0) Bool.false_ne_true
  | false =>
    refine iff_of_true ?_ rfl
    rw [if_neg Bool.false_ne_true]
    dsimp only
    split
    · rename_i more
      exact Nat.lt_of_le_of_lt (Nat.zero_le _) (lt_def.mp more)
    · decide

section Sums

variable (fresh : tree.mapBlockIndex.lookup block.getHash = none)
  (known : tree.mapBlockIndex.contains block.hashPrevBlock = true)
include fresh known

theorem workOf_added_toNat (target : HasTarget block.nBits)
    (workFits : (tree.workOf block.hashPrevBlock).toNat + exactProof block.nBits < 2 ^ 256) :
    ((tree.addToBlockIndex c block).workOf block.getHash).toNat =
      (tree.workOf block.hashPrevBlock).toNat +
        if compactNegative block.nBits then 0 else exactProof block.nBits := by
  rw [workOf_added c fresh known, toNat_add, blockProof_toNat, target.getBlockProof_eq]
  exact Nat.mod_eq_of_lt (by split <;> omega)

theorem trustOf_added_toNat
    (trustFits : (tree.trustOf block.hashPrevBlock).toNat +
      (ofBlock block).getBlockTrust.toNat < 2 ^ 256) :
    ((tree.addToBlockIndex c block).trustOf block.getHash).toNat =
      (tree.trustOf block.hashPrevBlock).toNat +
        (ofBlock block).getBlockTrust.toNat := by
  rw [trustOf_added c fresh known, toNat_add, Nat.mod_eq_of_lt trustFits]

theorem grows_added_iff (target : HasTarget block.nBits)
    (workFits : (tree.workOf block.hashPrevBlock).toNat + exactProof block.nBits < 2 ^ 256)
    (trustFits : (tree.trustOf block.hashPrevBlock).toNat +
      (ofBlock block).getBlockTrust.toNat < 2 ^ 256) :
    (tree.addToBlockIndex c block).Grows block ↔
      block.isProofOfWork = true ∧ compactNegative block.nBits = false := by
  have positive := target.exactProof_pos
  obtain ⟨-, parentWork, parentTrust⟩ := kept_added c fresh known known
  unfold Grows
  rw [lt_def, lt_def, parentWork, parentTrust,
    workOf_added_toNat c fresh known target workFits, trustOf_added_toNat c fresh known trustFits,
    ← getBlockTrust_pos_iff target]
  cases negative : compactNegative block.nBits with
  | true =>
    rw [if_pos rfl]
    exact iff_of_false (by omega) (fun both => nomatch both.2)
  | false =>
    rw [if_neg Bool.false_ne_true]
    constructor
    · rintro ⟨-, -, more⟩
      exact ⟨by omega, rfl⟩
    · rintro ⟨more, -⟩
      omega

end Sums

/-! ## A chain -/

/-- The tree behind the blocks of a list. -/
def addAll (tree : BlockTree) (blocks : List CBlock) : BlockTree :=
  blocks.foldl (fun tree block => tree.addToBlockIndex c block) tree

/-- Each block is new where it is added, on top of the one before it. -/
def Extends (tree : BlockTree) (hashPrev : UInt256) : List CBlock → Prop
  | [] => True
  | block :: blocks =>
    block.hashPrevBlock = hashPrev ∧ tree.mapBlockIndex.lookup block.getHash = none ∧
      Extends (tree.addToBlockIndex c block) block.getHash blocks

theorem contains_added (fresh : tree.mapBlockIndex.lookup block.getHash = none)
    (known : tree.mapBlockIndex.contains block.hashPrevBlock = true) :
    (tree.addToBlockIndex c block).mapBlockIndex.contains block.getHash = true := by
  obtain ⟨pindexNew, pprev, -, -, index, -⟩ := index_added c fresh known
  rw [index, contains_insert, decide_eq_true rfl, Bool.true_or]

theorem addAll_kept {blocks : List CBlock} {tree : BlockTree} {hashPrev hash : UInt256}
    (extended : Extends c tree hashPrev blocks)
    (known : tree.mapBlockIndex.contains hashPrev = true)
    (other : tree.mapBlockIndex.contains hash = true) :
    (tree.addAll c blocks).workOf hash = tree.workOf hash ∧
      (tree.addAll c blocks).trustOf hash = tree.trustOf hash := by
  induction blocks generalizing tree hashPrev with
  | nil => exact ⟨rfl, rfl⟩
  | cons block blocks ih =>
    obtain ⟨rfl, fresh, rest⟩ := extended
    obtain ⟨stays, work, trust⟩ := kept_added c fresh known other
    obtain ⟨workRest, trustRest⟩ := ih rest (contains_added c fresh known) stays
    exact ⟨workRest.trans work, trustRest.trans trust⟩

/-- The work of the blocks together. -/
def workSum (blocks : List CBlock) : Nat := (blocks.map fun block => exactProof block.nBits).sum

/-- The trust of the blocks together. -/
def trustSum (blocks : List CBlock) : Nat :=
  (blocks.map fun block => (ofBlock block).getBlockTrust.toNat).sum

/-- Along a chain whose totals stay below `2 ^ 256` work grows by each block's own, and trust grows,
if and only if every block is a proof of work without a negative target. -/
theorem chain_grows_iff {blocks : List CBlock} {tree : BlockTree} {hashPrev : UInt256}
    (extended : Extends c tree hashPrev blocks)
    (known : tree.mapBlockIndex.contains hashPrev = true)
    (targets : ∀ block ∈ blocks, HasTarget block.nBits)
    (workFits : (tree.workOf hashPrev).toNat + workSum blocks < 2 ^ 256)
    (trustFits : (tree.trustOf hashPrev).toNat + trustSum blocks < 2 ^ 256) :
    (∀ block ∈ blocks, (tree.addAll c blocks).Grows block) ↔
      ∀ block ∈ blocks, block.isProofOfWork = true ∧ compactNegative block.nBits = false := by
  induction blocks generalizing tree hashPrev with
  | nil => exact iff_of_true (fun _ member => nomatch member) (fun _ member => nomatch member)
  | cons block blocks ih =>
    obtain ⟨rfl, fresh, rest⟩ := extended
    have target := targets block List.mem_cons_self
    have added := contains_added c fresh known
    have stays := (kept_added c fresh known known).1
    have sums : workSum (block :: blocks) = exactProof block.nBits + workSum blocks ∧
        trustSum (block :: blocks) =
          (ofBlock block).getBlockTrust.toNat + trustSum blocks := ⟨rfl, rfl⟩
    have work := workOf_added_toNat c fresh known target (by omega)
    have trust := trustOf_added_toNat c fresh known (by omega)
    have first := grows_added_iff c fresh known target (by omega) (by omega)
    have others := ih rest added (fun block member => targets block (List.mem_cons_of_mem _ member))
      (by split at work <;> omega) (by omega)
    -- the blocks that follow leave the first one and its parent alone
    have same : (tree.addAll c (block :: blocks)).Grows block ↔
        (tree.addToBlockIndex c block).Grows block := by
      obtain ⟨ownWork, ownTrust⟩ := addAll_kept c rest added added
      obtain ⟨parentWork, parentTrust⟩ := addAll_kept c rest added stays
      unfold Grows
      rw [show tree.addAll c (block :: blocks) =
        (tree.addToBlockIndex c block).addAll c blocks from rfl, ownWork, ownTrust, parentWork,
        parentTrust]
    rw [List.forall_mem_cons, List.forall_mem_cons, same, first]
    exact and_congr_right fun _ => others

/-! ## A block of each kind -/

def plainContext : StakeContext where
  hash _ := 0
  modifierUpgradeBlock := 0

def plainBlock (hash hashPrevBlock : UInt256) (vtx : List CTransaction) : CBlock where
  nVersion := 4
  hashPrevBlock
  hashMerkleRoot := 0
  nTime := 1540000000
  nBits := 0x1e0fffff
  nNonce := 0
  hash
  vtx

def plainStake : CTransaction :=
  { empty with
    vin := [{ prevout := ⟨5, 0⟩ }]
    vout := [⟨0, []⟩, ⟨COIN, []⟩] }

def rootTree : BlockTree :=
  BlockTree.addToBlockIndex plainContext ⟨⟨∅, ∅, 0⟩, ∅, [], ∅, none, 1, fun _ => 0⟩
    (plainBlock 1 0 [])

theorem plainBlock_target (hash hashPrevBlock : UInt256) (vtx : List CTransaction) :
    HasTarget (plainBlock hash hashPrevBlock vtx).nBits :=
  ⟨by show compactValue 0x1e0fffff ≠ 0; decide +kernel,
    by show compactOverflow 0x1e0fffff = false; decide +kernel⟩

theorem work_chain_grows :
    (rootTree.addAll plainContext [plainBlock 2 1 [], plainBlock 3 2 []]).Grows
        (plainBlock 2 1 []) ∧
      (rootTree.addAll plainContext [plainBlock 2 1 [], plainBlock 3 2 []]).Grows
        (plainBlock 3 2 []) := by
  have extended : Extends plainContext rootTree 1 [plainBlock 2 1 [], plainBlock 3 2 []] :=
    ⟨rfl, by decide +kernel, rfl, by decide +kernel, trivial⟩
  have grows := (chain_grows_iff plainContext extended (by decide +kernel)
    (by simp [plainBlock_target]) (by decide +kernel) (by decide +kernel)).mpr (by decide +kernel)
  exact ⟨grows _ (by simp), grows _ (by simp)⟩

/-- The trust of a proof of stake stays at its parent's. -/
theorem stake_chain_stays :
    Extends plainContext rootTree 1 [plainBlock 2 1 [empty, plainStake]] ∧
      HasTarget (plainBlock 2 1 [empty, plainStake]).nBits ∧
      (rootTree.workOf 1).toNat +
        workSum [plainBlock 2 1 [empty, plainStake]] < 2 ^ 256 ∧
      (rootTree.trustOf 1).toNat +
        trustSum [plainBlock 2 1 [empty, plainStake]] < 2 ^ 256 ∧
      (plainBlock 2 1 [empty, plainStake]).isProofOfStake = true ∧
      ¬ (rootTree.addAll plainContext [plainBlock 2 1 [empty, plainStake]]).Grows
        (plainBlock 2 1 [empty, plainStake]) := by
  refine ⟨⟨rfl, by decide +kernel, trivial⟩, plainBlock_target _ _ _, by decide +kernel,
    by decide +kernel, rfl, ?_⟩
  rintro ⟨-, -, more⟩
  revert more
  decide +kernel

end BlockTree

end Esbcoin
