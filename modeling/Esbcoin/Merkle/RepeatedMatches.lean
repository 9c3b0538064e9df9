import Esbcoin.Merkle.PartialMerkleTree
import Mathlib.Data.List.Count

/-!
# How often a match can be extracted

`ExtractMatches` believes the number of transactions of the message. Between the true number and the
next power of two all numbers give a tree of one height, and with more transactions than there are
the last nodes of the odd levels stand twice: a transaction there is extracted as often as its
places are flagged (`extractMatches_count_iff`).
-/

namespace Esbcoin

open PairedLevels CTransaction List

namespace CPartialMerkleTree

/-- The part of a merkle tree that the flags and the hashes of a message spell. -/
def spelled (tree : CPartialMerkleTree) : Option (PartialTree UInt256) :=
  let nTransactions := tree.nTransactions.toNat
  (PartialTree.read nTransactions (height nTransactions) 0 tree.vBits tree.vHash).map Prod.fst

/-- The leaf positions that are flagged in a message. -/
def flagged (tree : CPartialMerkleTree) : List Nat :=
  (tree.spelled.map (PartialTree.places 0)).getD []

/-- The pairs that are hashed on the way up from what a message spells. -/
def joined (hash : NodeHash) (tree : CPartialMerkleTree) : List (UInt256 × UInt256) :=
  (tree.spelled.map (PartialTree.joins hash)).getD []

variable {hash : NodeHash} {tree : CPartialMerkleTree} {vtx : List CTransaction}
  {IsTxid : UInt256 → Prop}

theorem Spells.spelled_eq {t : PartialTree UInt256} {padding : List Bool}
    (spells : Spells tree t padding) : tree.spelled = some t := by
  have read := (PartialTree.read_eq_some_iff ..).mpr
    ⟨spells.fits, spells.bits, spells.hashes.trans (append_nil _).symm⟩
  rw [spelled, read]
  rfl

/-- The hash of two nodes is injective on the pairs that are hashed for the list and for the
message, and gives no hash of a transaction there. -/
structure Resistant (hash : NodeHash) (IsTxid : UInt256 → Prop) (vtx : List CTransaction)
    (tree : CPartialMerkleTree) : Prop where
  txids : ∀ tx ∈ vtx, IsTxid tx.getHash
  injective : ∀ p ∈ tree.joined hash ++ hashedPairs hash (vtx.map getHash),
    ∀ q ∈ tree.joined hash ++ hashedPairs hash (vtx.map getHash),
      hash p.1 p.2 = hash q.1 q.2 → p = q
  leaves : ∀ txid, IsTxid txid →
    ∀ p ∈ tree.joined hash ++ hashedPairs hash (vtx.map getHash), hash p.1 p.2 ≠ txid

/-- How many of the flagged positions of a message fall on the transaction `txid` in the merkle tree
of the list. -/
def timesFlagged (tree : CPartialMerkleTree) (vtx : List CTransaction) (txid : UInt256) : Nat :=
  tree.flagged.countP fun p =>
    (vtx.map getHash)[PartialTree.shown vtx.length (height vtx.length) p]? == some txid

/-- The message spells a part of the tree over the block. -/
structure SpellsPart (hash : NodeHash) (vtx : List CTransaction) (tree : CPartialMerkleTree)
    (t : PartialTree UInt256) : Prop where
  fits : PartialTree.Fits tree.nTransactions.toNat (height tree.nTransactions.toNat) 0 t
  spelled : tree.spelled = some t
  top : (level hash (vtx.map getHash) (height (vtx.map getHash).length))[
    PartialTree.shown (vtx.map getHash).length 0 0]? = some (t.top hash)

section Part

variable {t : PartialTree UInt256}

theorem spellsPart {padding : List Bool} (spells : Spells tree t padding) (real : t.top hash ≠ 0)
    (same : t.top hash = (buildMerkleTree hash vtx).root) : SpellsPart hash vtx tree t := by
  refine ⟨spells.fits, spells.spelled_eq, ?_⟩
  rw [buildMerkleTree_root] at same
  by_cases none : vtx.map getHash = []
  · have blank : (PairedLevels.top hash []).getD (0 : UInt256) = 0 := by
      simp [PairedLevels.top, height_of_le, level]
    rw [none, blank] at same
    exact absurd same real
  obtain ⟨a, single, found⟩ := level_height hash none
  rw [found, Option.getD_some] at same
  rw [single, same]
  rfl

theorem SpellsPart.injective (part : SpellsPart hash vtx tree t)
    (free : Resistant hash IsTxid vtx tree) :
    ∀ p ∈ t.joins hash, ∀ q ∈ hashedPairs hash (vtx.map getHash),
      hash p.1 p.2 = hash q.1 q.2 → p = q := by
  have joins : tree.joined hash = t.joins hash := by rw [joined, part.spelled]; rfl
  intro p member q member'
  rw [← joins] at member
  exact free.injective p (mem_append_left _ member) q (mem_append_right _ member')

/-- In a tree as high as that of the list, a transaction is extracted as often as it is flagged. -/
theorem SpellsPart.count_eq (part : SpellsPart hash vtx tree t)
    (free : Resistant hash IsTxid vtx tree)
    (level_with : height tree.nTransactions.toNat = height vtx.length) (txid : UInt256) :
    t.marks.count txid = tree.timesFlagged vtx txid := by
  have marks := PartialTree.marks_eq_shown part.fits (Nat.zero_add _)
    (by rw [length_map]; omega) part.top (part.injective free)
  rw [length_map, level_with, Nat.sub_self, Nat.zero_add] at marks
  have places : tree.flagged = t.places 0 := by rw [flagged, part.spelled]; rfl
  calc t.marks.count txid = (t.marks.map some).count (some txid) :=
        (count_map_of_injective _ _ (Option.some_injective _) _).symm
    _ = tree.timesFlagged vtx txid := by
        rw [marks, count_eq_countP, countP_map, timesFlagged, places]
        rfl

/-- In a tree of another height no transaction is extracted. -/
theorem SpellsPart.count_eq_zero (part : SpellsPart hash vtx tree t)
    (free : Resistant hash IsTxid vtx tree)
    (other : height tree.nTransactions.toNat ≠ height vtx.length) {txid : UInt256}
    (leaf : IsTxid txid) : t.marks.count txid = 0 := by
  have joins : tree.joined hash = t.joins hash := by rw [joined, part.spelled]; rfl
  rw [← length_map getHash] at other
  rcases Nat.lt_or_gt_of_ne other with lower | higher
  · -- What the message takes for leaves are nodes above those of the list.
    have marks := PartialTree.marks_eq_shown part.fits (Nat.zero_add _) (Nat.le_of_lt lower)
      part.top (part.injective free)
    rw [List.count_eq_zero]
    intro marked
    have inner : some txid ∈ t.marks.map some := List.mem_map_of_mem marked
    rw [marks] at inner
    obtain ⟨p, -, found⟩ := mem_map.mp inner
    obtain ⟨up, levels⟩ := Nat.exists_eq_add_of_lt lower
    rw [show height (vtx.map getHash).length - height tree.nTransactions.toNat =
      up + 1 by omega] at found
    obtain ⟨q, member, value⟩ := mem_level_succ hash (mem_of_getElem? found)
    obtain ⟨j, below, pair⟩ := (mem_joins hash).mp member
    have hashed : q ∈ hashedPairs hash (vtx.map getHash) :=
      (mem_joins hash).mpr ⟨j, by omega, pair⟩
    exact free.leaves txid leaf q (mem_append_right _ hashed) value.symm
  · -- The leaves of the message are below those of the list.
    have marks := PartialTree.marks_eq_nil part.fits (Nat.zero_add _) higher part.top
      (part.injective free) fun txid member p joined => by
        obtain ⟨tx, inside, rfl⟩ := mem_map.mp member
        rw [← joins] at joined
        exact free.leaves _ (free.txids tx inside) p (mem_append_left _ joined)
    rw [marks]
    rfl

end Part

/-- Where `ExtractMatches` returned the merkle root, no txid occurs more often in the matches than
in the list just when the tree of the message has another height or flags no transaction at more
places than it has. -/
theorem extractMatches_count_iff (real : (tree.extractMatches hash).1 ≠ 0)
    (same : (tree.extractMatches hash).1 = (buildMerkleTree hash vtx).root)
    (free : Resistant hash IsTxid vtx tree) :
    (∀ txid, IsTxid txid →
        (tree.extractMatches hash).2.count txid ≤ (vtx.map getHash).count txid) ↔
      (height tree.nTransactions.toNat = height vtx.length → ∀ tx ∈ vtx,
        tree.timesFlagged vtx tx.getHash ≤ (vtx.map getHash).count tx.getHash) := by
  obtain ⟨t, padding, able⟩ := extractable_of_extractMatches real
  rw [extractMatches_of_extractable able] at real same ⊢
  have part := spellsPart able.toSpells real same
  constructor
  · intro few level_with tx member
    rw [← part.count_eq free level_with]
    exact few _ (free.txids tx member)
  intro few txid leaf
  by_cases level_with : height tree.nTransactions.toNat = height vtx.length
  · dsimp only
    rw [part.count_eq free level_with]
    by_cases member : txid ∈ vtx.map getHash
    · obtain ⟨tx, inside, rfl⟩ := mem_map.mp member
      exact few level_with tx inside
    have none : tree.timesFlagged vtx txid = 0 := by
      refine countP_eq_zero.mpr fun p _ shown => member ?_
      exact mem_of_getElem? (eq_of_beq shown)
    omega
  · dsimp only
    rw [part.count_eq_zero free level_with leaf]
    exact Nat.zero_le _

/-- A message about the transactions 1, 2 and 3 that claims four of them and flags the last one
twice. -/
def doubledLast : CPartialMerkleTree :=
  ⟨4, [true, false, true, true, true, false, false, false], [sampleNodeHash 1 2, 3, 3], false⟩

theorem resistant_doubledLast :
    Resistant sampleNodeHash (fun txid => txid.toNat < 1000) ([1, 2, 3].map hashedTx)
      doubledLast := by
  -- The pairs are looked through in their lists: the pairs of hashes are too many.
  have large : (doubledLast.joined sampleNodeHash ++
      hashedPairs sampleNodeHash (([1, 2, 3].map hashedTx).map getHash)).all
      (fun p => decide (1000 ≤ (sampleNodeHash p.1 p.2).toNat)) = true := by decide +kernel
  have apart : (doubledLast.joined sampleNodeHash ++
      hashedPairs sampleNodeHash (([1, 2, 3].map hashedTx).map getHash)).all
      (fun p => (doubledLast.joined sampleNodeHash ++
        hashedPairs sampleNodeHash (([1, 2, 3].map hashedTx).map getHash)).all
        fun q => decide (sampleNodeHash p.1 p.2 = sampleNodeHash q.1 q.2 → p = q)) = true := by
    decide +kernel
  refine ⟨by decide, fun p member q member' => ?_, fun txid small p member same => ?_⟩
  · exact of_decide_eq_true (all_eq_true.mp (all_eq_true.mp apart p member) q member')
  · have bound := of_decide_eq_true (all_eq_true.mp large p member)
    rw [same] at bound
    exact absurd small (Nat.not_lt.mpr bound)

theorem extractMatches_count_iff_doubledLast :
    ¬ ∀ txid : UInt256, txid.toNat < 1000 →
      (doubledLast.extractMatches sampleNodeHash).2.count txid ≤ [1, 2, 3].count txid := by
  have exact_condition := @extractMatches_count_iff sampleNodeHash doubledLast
    ([1, 2, 3].map hashedTx) (fun txid => txid.toNat < 1000) (by decide +kernel)
    (by decide +kernel) resistant_doubledLast
  exact exact_condition.not.mpr (by decide +kernel)

/-- A txid that the list has once is extracted twice. -/
theorem match_is_repeated :
    ¬ ∀ (hash : NodeHash) (IsTxid : UInt256 → Prop) (vtx : List CTransaction)
      (tree : CPartialMerkleTree), (tree.extractMatches hash).1 ≠ 0 →
      (tree.extractMatches hash).1 = (buildMerkleTree hash vtx).root →
      Resistant hash IsTxid vtx tree → ∀ txid, IsTxid txid →
        (tree.extractMatches hash).2.count txid ≤ (vtx.map getHash).count txid := by
  intro never
  have once := never sampleNodeHash (fun txid => txid.toNat < 1000) ([1, 2, 3].map hashedTx)
    doubledLast (by decide +kernel) (by decide +kernel) resistant_doubledLast 3 (by decide)
  exact absurd once (by decide +kernel)

end CPartialMerkleTree

end Esbcoin
