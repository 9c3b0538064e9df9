import Esbcoin.Lib.PairedLevels
import Esbcoin.Primitives
import Mathlib.Data.Nat.Bitwise

/-!
# The merkle tree of a block

Rendering of `CBlock::BuildMerkleTree`, `CBlock::GetMerkleBranch` and `CBlock::CheckMerkleBranch`
(`src/primitives/block.cpp:21-113`). The hash of two nodes is a parameter. The vector `vMerkleTree`
holds the levels of `PairedLevels` one behind the other (`hashLevels_eq`).
-/

namespace Esbcoin

open PairedLevels CTransaction List

/-- `Hash` of the bytes of two nodes, one behind the other. -/
abbrev NodeHash := UInt256 → UInt256 → UInt256

/-- The tree under construction. -/
structure MerkleBuild where
  vMerkleTree : List UInt256
  j : Nat := 0
  mutated : Bool := false

section Functions

variable (hash : NodeHash)

/-- One turn of the inner loop of `BuildMerkleTree` (`block.cpp:68-75`). -/
def hashPair (nSize : Nat) (s : MerkleBuild) (i : Nat) : MerkleBuild :=
  let i2 := min (i + 1) (nSize - 1)
  let left := s.vMerkleTree.getD (s.j + i) 0
  let right := s.vMerkleTree.getD (s.j + i2) 0
  { s with
    vMerkleTree := s.vMerkleTree ++ [hash left right]
    mutated := s.mutated || (decide (i2 = i + 1 ∧ i2 + 1 = nSize) && left == right) }

/-- One turn of the outer loop (`block.cpp:66-78`). -/
def hashLevel (nSize : Nat) (s : MerkleBuild) : MerkleBuild :=
  let s := (List.range ((nSize + 1) / 2)).foldl (fun s k => hashPair hash nSize s (2 * k)) s
  { s with j := s.j + nSize }

/-- The outer loop. -/
def hashLevels (nSize : Nat) (s : MerkleBuild) : MerkleBuild :=
  if 1 < nSize then hashLevels ((nSize + 1) / 2) (hashLevel hash nSize s) else s
termination_by nSize

/-- `CBlock::BuildMerkleTree` (`block.cpp:21-83`) of the transactions of a block: what it leaves
in `vMerkleTree` and `fMutated`. -/
def buildMerkleTree (vtx : List CTransaction) : MerkleBuild :=
  hashLevels hash vtx.length { vMerkleTree := vtx.map getHash }

/-- The last hash of the tree. -/
def MerkleBuild.root (s : MerkleBuild) : UInt256 := s.vMerkleTree.getLast?.getD 0

/-- The loop of `GetMerkleBranch` (`block.cpp:90-97`). -/
def branchFrom (vMerkleTree : List UInt256) (nSize j nIndex : Nat) : List UInt256 :=
  if 1 < nSize then
    vMerkleTree.getD (j + min (nIndex ^^^ 1) (nSize - 1)) 0 ::
      branchFrom vMerkleTree ((nSize + 1) / 2) (j + nSize) (nIndex >>> 1)
  else []
termination_by nSize

/-- `CBlock::GetMerkleBranch` (`block.cpp:85-99`) of a block with the given `vMerkleTree`. -/
def getMerkleBranch (vtx : List CTransaction) (vMerkleTree : List UInt256) (nIndex : Nat) :
    List UInt256 :=
  let vMerkleTree :=
    if vMerkleTree.isEmpty then (buildMerkleTree hash vtx).vMerkleTree else vMerkleTree
  branchFrom vMerkleTree vtx.length 0 nIndex

/-- One turn of the loop of `CheckMerkleBranch` (`block.cpp:105-112`). -/
def checkTurn (s : UInt256 × Int) (it : UInt256) : UInt256 × Int :=
  (if s.2 % 2 = 1 then hash it s.1 else hash s.1 it, s.2 / 2)

/-- `CBlock::CheckMerkleBranch` (`block.cpp:101-113`). -/
def checkMerkleBranch (txid : UInt256) (vMerkleBranch : List UInt256) (nIndex : Int) : UInt256 :=
  if nIndex = -1 then 0 else (vMerkleBranch.foldl (checkTurn hash) (txid, nIndex)).1

end Functions

/-! ## The levels in the vector -/

section Levels

variable {hash : NodeHash} {front l : List UInt256}

/-- Is the pair number `k` the last of an even level, and of equal hashes? -/
def twinsAt (l : List UInt256) (k : Nat) : Bool :=
  decide (2 * k + 2 = l.length) && l[2 * k]? == l[2 * k + 1]?

theorem any_twinsAt (l : List UInt256) :
    (List.range ((l.length + 1) / 2)).any (twinsAt l) = endsInTwins l := by
  rw [Bool.eq_iff_iff, endsInTwins_iff, any_eq_true]
  constructor
  · rintro ⟨k, -, twins⟩
    obtain ⟨last, same⟩ := (Bool.and_eq_true _ _).mp twins
    have last := of_decide_eq_true last
    obtain ⟨a, first⟩ : ∃ a, l[2 * k]? = some a := ⟨_, List.getElem?_eq_getElem (by omega)⟩
    exact ⟨k, a, last, first, (eq_of_beq same).symm.trans first⟩
  · rintro ⟨k, a, last, first, second⟩
    refine ⟨k, mem_range.mpr (by omega), ?_⟩
    rw [twinsAt, first, second, Bool.and_eq_true]
    exact ⟨decide_eq_true last, beq_self_eq_true _⟩

/-- A turn reads its pair behind the levels in front and puts the hash of it at the end. -/
theorem hashPair_eq {k : Nat} (inside : k < (l.length + 1) / 2) (more : List UInt256)
    (mutated : Bool) :
    hashPair hash l.length ⟨front ++ l ++ more, front.length, mutated⟩ (2 * k) =
      ⟨front ++ l ++ more ++ ((above hash l)[k]?).toList, front.length, mutated || twinsAt l k⟩ := by
  obtain ⟨left, first⟩ : ∃ a, l[2 * k]? = some a := ⟨_, List.getElem?_eq_getElem (by omega)⟩
  obtain ⟨right, second⟩ : ∃ a, l[min (2 * k + 1) (l.length - 1)]? = some a :=
    ⟨_, List.getElem?_eq_getElem (by omega)⟩
  have pair := (getElem?_pairs l k _ _).mpr ⟨first, second⟩
  have read : ∀ i < l.length, (front ++ l ++ more).getD (front.length + i) 0 = l.getD i 0 := by
    intro i below
    rw [append_assoc, getD_eq_getElem?_getD, getD_eq_getElem?_getD,
      List.getElem?_append_right (by omega), Nat.add_sub_cancel_left, List.getElem?_append_left below]
  unfold hashPair
  dsimp only
  rw [read _ (by omega), read _ (by omega), getD_eq_getElem?_getD, getD_eq_getElem?_getD,
    first, second, above, List.getElem?_map, pair]
  congr 2
  unfold twinsAt
  by_cases last : 2 * k + 2 = l.length
  · have here : min (2 * k + 1) (l.length - 1) = 2 * k + 1 := by omega
    have twice : 2 * k + 1 + 1 = l.length := last
    rw [here] at second
    rw [here, first, second, decide_eq_true ⟨rfl, twice⟩, decide_eq_true last]
    simp
  · have not_last : ¬ (min (2 * k + 1) (l.length - 1) = 2 * k + 1 ∧
        min (2 * k + 1) (l.length - 1) + 1 = l.length) := by omega
    rw [decide_eq_false not_last, decide_eq_false last, Bool.false_and, Bool.false_and]

theorem foldl_hashPair_eq (mutated : Bool) {t : Nat} (inside : t ≤ (l.length + 1) / 2) :
    (List.range t).foldl (fun s k => hashPair hash l.length s (2 * k))
        ⟨front ++ l, front.length, mutated⟩ =
      ⟨front ++ l ++ (above hash l).take t, front.length,
        mutated || (List.range t).any (twinsAt l)⟩ := by
  induction t with
  | zero => simp
  | succ t ih =>
    rw [range_succ, foldl_append, ih (by omega), foldl_cons, foldl_nil,
      hashPair_eq inside, any_append, append_assoc, take_add_one,
      Bool.or_assoc]
    simp

theorem hashLevel_eq (mutated : Bool) :
    hashLevel hash l.length ⟨front ++ l, front.length, mutated⟩ =
      ⟨(front ++ l) ++ above hash l, (front ++ l).length, mutated || endsInTwins l⟩ := by
  have whole : (above hash l).take ((l.length + 1) / 2) = above hash l := by
    rw [← length_above hash l, take_length]
  unfold hashLevel
  rw [foldl_hashPair_eq mutated (le_refl _), any_twinsAt, whole, length_append]

/-- Does a level below the top end in twins? -/
def hasTwins (hash : NodeHash) (l : List UInt256) : Bool :=
  (List.range (height l.length)).any fun k => endsInTwins (level hash l k)

theorem hasTwins_of_lt (many : 1 < l.length) :
    hasTwins hash l = (endsInTwins l || hasTwins hash (above hash l)) := by
  have levels : ∀ k, level hash l (k + 1) = level hash (above hash l) k := by
    intro k
    rw [Nat.add_comm, level_add]
    rfl
  rw [hasTwins, hasTwins, height_of_lt many, length_above, range_succ_eq_map, any_cons,
    any_map]
  simp only [Function.comp_def, levels]
  rfl

/-- The outer loop leaves all levels of `l` behind what was in front of them. -/
theorem hashLevels_eq (hash : NodeHash) (front l : List UInt256) (mutated : Bool) :
    (hashLevels hash l.length ⟨front ++ l, front.length, mutated⟩).vMerkleTree =
        front ++ stack hash l ∧
      (hashLevels hash l.length ⟨front ++ l, front.length, mutated⟩).mutated =
        (mutated || hasTwins hash l) := by
  generalize size : l.length = n
  induction n using Nat.strongRecOn generalizing front l mutated with
  | ind n ih =>
    subst size
    rw [hashLevels]
    by_cases many : 1 < l.length
    · have size : (above hash l).length = (l.length + 1) / 2 := length_above hash l
      obtain ⟨tree, twins⟩ := ih _ (by omega) (front ++ l) (above hash l)
        (mutated || endsInTwins l) size
      rw [if_pos many, hashLevel_eq, tree, twins, stack_of_lt hash many, hasTwins_of_lt many,
        append_assoc, Bool.or_assoc]
      exact ⟨rfl, rfl⟩
    · rw [if_neg many, stack_of_le hash (by omega), hasTwins, height_of_le (by omega)]
      simp

variable {vtx : List CTransaction}

theorem buildMerkleTree_tree :
    (buildMerkleTree hash vtx).vMerkleTree = stack hash (vtx.map getHash) := by
  have levels := hashLevels_eq hash [] (vtx.map getHash) false
  rw [length_map] at levels
  exact levels.1

theorem buildMerkleTree_mutated :
    (buildMerkleTree hash vtx).mutated = hasTwins hash (vtx.map getHash) := by
  have levels := hashLevels_eq hash [] (vtx.map getHash) false
  rw [length_map] at levels
  exact levels.2

theorem buildMerkleTree_root :
    (buildMerkleTree hash vtx).root = (top hash (vtx.map getHash)).getD 0 := by
  rw [MerkleBuild.root, buildMerkleTree_tree, getLast?_stack]

end Levels

/-! ## Branches -/

section Branch

variable {hash : NodeHash} {l : List UInt256}

/-- The sibling of an element, which is the element itself where it stands last on its own. -/
theorem pair_of_sibling (hash : NodeHash) {i : Nat} {a : UInt256} (found : l[i]? = some a) :
    ∃ b, l[min (i ^^^ 1) (l.length - 1)]? = some b ∧
      (above hash l)[i / 2]? = some (if i % 2 = 1 then hash b a else hash a b) := by
  obtain ⟨inside, -⟩ := List.getElem?_eq_some_iff.mp found
  have flipped : i ^^^ 1 = if i % 2 = 1 then i - 1 else i + 1 := by
    rcases Nat.mod_two_eq_zero_or_one i with even | odd
    · rw [if_neg (by omega), Nat.xor_one_of_even (Nat.even_iff.mpr even)]
    · rw [if_pos odd, Nat.xor_one_of_odd (Nat.odd_iff.mpr odd)]
  obtain ⟨b, sibling⟩ : ∃ b, l[min (i ^^^ 1) (l.length - 1)]? = some b :=
    ⟨_, List.getElem?_eq_getElem (by omega)⟩
  refine ⟨b, sibling, ?_⟩
  rw [above, List.getElem?_map, Option.map_eq_some_iff]
  rw [flipped] at sibling
  by_cases odd : i % 2 = 1
  · refine ⟨(b, a), (getElem?_pairs _ _ _ _).mpr ⟨?_, ?_⟩, (if_pos odd).symm⟩
    · rw [if_pos odd, show min (i - 1) (l.length - 1) = 2 * (i / 2) by omega] at sibling
      exact sibling
    · rw [show min (2 * (i / 2) + 1) (l.length - 1) = i by omega]
      exact found
  refine ⟨(a, b), (getElem?_pairs _ _ _ _).mpr ⟨?_, ?_⟩, (if_neg odd).symm⟩
  · rw [show 2 * (i / 2) = i by omega]
    exact found
  · rw [if_neg odd, show i + 1 = 2 * (i / 2) + 1 by omega] at sibling
    exact sibling

/-- The branch of an element leads from it to the top of its list. -/
theorem foldl_branchFrom (hash : NodeHash) (front l : List UInt256) {i : Nat} {a : UInt256}
    (found : l[i]? = some a) :
    top hash l = some ((branchFrom (front ++ stack hash l) l.length front.length i).foldl
      (checkTurn hash) (a, (i : Int))).1 := by
  generalize size : l.length = n
  induction n using Nat.strongRecOn generalizing front l i a with
  | ind n ih =>
    subst size
    obtain ⟨inside, -⟩ := List.getElem?_eq_some_iff.mp found
    rw [branchFrom]
    by_cases many : 1 < l.length
    · obtain ⟨b, sibling, joined⟩ := pair_of_sibling hash found
      have size : (above hash l).length = (l.length + 1) / 2 := length_above hash l
      have rest := ih _ (by omega) (front ++ l) (above hash l) joined size
      have read : (front ++ stack hash l).getD
          (front.length + min (i ^^^ 1) (l.length - 1)) 0 = b := by
        obtain ⟨below, -⟩ := List.getElem?_eq_some_iff.mp sibling
        rw [stack_of_lt hash many, getD_eq_getElem?_getD,
          List.getElem?_append_right (by omega), Nat.add_sub_cancel_left,
          List.getElem?_append_left below, sibling, Option.getD_some]
      have turn : checkTurn hash (a, (i : Int)) b =
          (if i % 2 = 1 then hash b a else hash a b, ((i / 2 : Nat) : Int)) := by
        rw [checkTurn]
        by_cases odd : i % 2 = 1
        · rw [if_pos odd, if_pos (by omega)]
          rfl
        · rw [if_neg odd, if_neg (by omega)]
          rfl
      rw [if_pos many, read, foldl_cons, turn, top_of_lt hash many, rest,
        stack_of_lt hash many, append_assoc, length_append, Nat.shiftRight_one]
    · rw [if_neg many, foldl_nil]
      obtain rfl : i = 0 := by omega
      rw [top, height_of_le (by omega)]
      exact List.head?_eq_getElem?.trans found

/-- Every branch leads to the root. -/
theorem checkMerkleBranch_eq_root {vtx : List CTransaction} {i : Nat} {tx : CTransaction}
    (found : vtx[i]? = some tx) :
    checkMerkleBranch hash tx.getHash
        (getMerkleBranch hash vtx (buildMerkleTree hash vtx).vMerkleTree i) i =
      (buildMerkleTree hash vtx).root := by
  have txid : (vtx.map getHash)[i]? = some tx.getHash := by
    rw [List.getElem?_map, found]
    rfl
  have branch := foldl_branchFrom hash [] _ txid
  rw [nil_append, length_nil, length_map] at branch
  rw [checkMerkleBranch, if_neg (by omega), getMerkleBranch, buildMerkleTree_root,
    buildMerkleTree_tree, ite_self, branch, Option.getD_some]

end Branch

/-! ## Lists with one root -/

section Root

variable {hash : NodeHash} {l l' : List UInt256}

/-- The pairs that are hashed for the tree. -/
def hashedPairs (hash : NodeHash) (l : List UInt256) : List (UInt256 × UInt256) :=
  joins hash l (height l.length)

/-- No two pairs of two trees collide, and no leaf of the trees is the hash of such a pair. -/
structure CollisionFree (hash : NodeHash) (l l' : List UInt256) : Prop where
  pairs : ∀ p ∈ hashedPairs hash l ++ hashedPairs hash l',
    ∀ q ∈ hashedPairs hash l ++ hashedPairs hash l', hash p.1 p.2 = hash q.1 q.2 → p = q
  leaves : ∀ txid ∈ l ++ l', ∀ p ∈ hashedPairs hash l ++ hashedPairs hash l', hash p.1 p.2 ≠ txid

instance (hash : NodeHash) (l l' : List UInt256) : Decidable (CollisionFree hash l l') :=
  let both := hashedPairs hash l ++ hashedPairs hash l'
  decidable_of_iff
    (both.all (fun p => both.all fun q => hash p.1 p.2 != hash q.1 q.2 || p == q) = true ∧
      (l ++ l').all (fun txid => both.all fun p => hash p.1 p.2 != txid) = true) <| by
    simp only [all_eq_true, Bool.or_eq_true, bne_iff_ne, beq_iff_eq, ne_eq, ← imp_iff_not_or]
    exact ⟨fun free => ⟨free.1, free.2⟩, fun free => ⟨free.pairs, free.leaves⟩⟩

theorem CollisionFree.symm (free : CollisionFree hash l l') : CollisionFree hash l' l := by
  have swap : ∀ {p : UInt256 × UInt256}, p ∈ hashedPairs hash l' ++ hashedPairs hash l →
      p ∈ hashedPairs hash l ++ hashedPairs hash l' := by
    intro p member
    rw [mem_append] at member ⊢
    exact member.symm
  refine ⟨fun p hp q hq => free.pairs p (swap hp) q (swap hq), fun txid member p hp => ?_⟩
  refine free.leaves txid ?_ p (swap hp)
  rw [mem_append] at member ⊢
  exact member.symm

theorem noTwins_of_hasTwins (single : hasTwins hash l = false) :
    NoTwins hash l (height l.length) := by
  intro j less
  rw [hasTwins, any_eq_false] at single
  exact Bool.eq_false_iff.mpr (single j (mem_range.mpr less))

/-- With the higher tree on the right. -/
theorem eq_of_top_eq_of_le (free : CollisionFree hash l l') (some : l ≠ []) (some' : l' ≠ [])
    (le : height l.length ≤ height l'.length) (single : hasTwins hash l = false)
    (single' : hasTwins hash l' = false) (same : top hash l = top hash l') : l = l' := by
  obtain ⟨a, up, found⟩ := level_height hash some
  obtain ⟨a', up', found'⟩ := level_height hash some'
  obtain rfl : a = a' := Option.some.inj (found.symm.trans (same.trans found'))
  obtain ⟨d, higher⟩ := Nat.exists_eq_add_of_le' le
  have one_level : level hash l (height l.length) =
      level hash (level hash l' d) (height l.length) := by
    rw [up, ← level_add, ← higher, up']
  have joined : ∀ p ∈ joins hash (level hash l' d) (height l.length), p ∈ hashedPairs hash l' := by
    intro p member
    obtain ⟨j, less, inside⟩ := (mem_joins hash).mp member
    rw [← level_add] at inside
    exact (mem_joins hash).mpr ⟨d + j, by omega, inside⟩
  have no_twins : NoTwins hash (level hash l' d) (height l.length) := by
    intro j less
    rw [← level_add]
    exact noTwins_of_hasTwins single' _ (by omega)
  have equal : l = level hash l' d := by
    refine eq_of_level_eq hash one_level (fun p hp q hq => free.pairs p ?_ q ?_)
      (noTwins_of_hasTwins single) no_twins
    · exact mem_append_left _ hp
    · exact mem_append_right _ (joined q hq)
  cases d with
  | zero => exact equal
  | succ d =>
    -- the leaves of the lower tree would be hashes of the higher one
    obtain ⟨txid, member⟩ := exists_mem_of_ne_nil l some
    obtain ⟨p, pair, hashed⟩ := mem_level_succ hash (equal ▸ member)
    obtain ⟨j, less, inside⟩ := (mem_joins hash).mp pair
    have here : p ∈ hashedPairs hash l' := (mem_joins hash).mpr ⟨j, by omega, inside⟩
    exact absurd hashed.symm (free.leaves txid (mem_append_left _ member) p
      (mem_append_right _ here))

theorem eq_of_top_eq (free : CollisionFree hash l l') (some : l ≠ []) (some' : l' ≠ [])
    (single : hasTwins hash l = false) (single' : hasTwins hash l' = false)
    (same : top hash l = top hash l') : l = l' := by
  rcases Nat.le_total (height l.length) (height l'.length) with le | le
  · exact eq_of_top_eq_of_le free some some' le single single' same
  · exact (eq_of_top_eq_of_le free.symm some' some le single' single same.symm).symm

end Root

/-- Every branch of a merkle tree leads to its root, and where no hashes collide the root tells
the lists with transactions apart that `BuildMerkleTree` does not find mutated. -/
theorem merkleTree_sound (hash : NodeHash) :
    (∀ (vtx : List CTransaction) (i : Nat) (tx : CTransaction), vtx[i]? = some tx →
      checkMerkleBranch hash tx.getHash
          (getMerkleBranch hash vtx (buildMerkleTree hash vtx).vMerkleTree i) i =
        (buildMerkleTree hash vtx).root) ∧
      ∀ first second : List CTransaction, first ≠ [] → second ≠ [] →
        (∀ tx ∈ first, ∀ tx' ∈ second, tx.getHash = tx'.getHash → tx = tx') →
        CollisionFree hash (first.map getHash) (second.map getHash) →
        (buildMerkleTree hash first).mutated = false →
        (buildMerkleTree hash second).mutated = false →
        (buildMerkleTree hash first).root = (buildMerkleTree hash second).root →
        first = second := by
  refine ⟨fun vtx i tx found => checkMerkleBranch_eq_root found, ?_⟩
  intro first second some some' txids free single single' same
  rw [buildMerkleTree_mutated] at single single'
  rw [buildMerkleTree_root, buildMerkleTree_root] at same
  have nonempty : first.map getHash ≠ [] := by simpa using some
  have nonempty' : second.map getHash ≠ [] := by simpa using some'
  obtain ⟨a, -, found⟩ := level_height hash nonempty
  obtain ⟨a', -, found'⟩ := level_height hash nonempty'
  rw [found, found'] at same
  have tops : top hash (first.map getHash) =
      top hash (second.map getHash) := by
    rw [found, found']
    exact congrArg Option.some same
  exact eq_of_map_eq (eq_of_top_eq free nonempty nonempty' single single' tops) txids

def sampleNodeHash : NodeHash := fun left right => left * 1000 + right + 5000

def hashedTx (txid : UInt256) : CTransaction := { empty with hash := txid }

/-- The branch of the last of three transactions, and a second list with the same root. -/
theorem merkleTree_sound_three :
    checkMerkleBranch sampleNodeHash 3
        (getMerkleBranch sampleNodeHash [hashedTx 1, hashedTx 2, hashedTx 3]
          (buildMerkleTree sampleNodeHash [hashedTx 1, hashedTx 2, hashedTx 3]).vMerkleTree 2) 2 =
      (buildMerkleTree sampleNodeHash [hashedTx 1, hashedTx 2, hashedTx 3]).root ∧
    [hashedTx 1, hashedTx 2, hashedTx 3] = [1, 2, 3].map hashedTx := by
  constructor
  · exact (merkleTree_sound sampleNodeHash).1 [hashedTx 1, hashedTx 2, hashedTx 3] 2 (hashedTx 3) rfl
  · exact (merkleTree_sound sampleNodeHash).2 [hashedTx 1, hashedTx 2, hashedTx 3]
      ([1, 2, 3].map hashedTx) (by decide) (by decide) (by decide) (by decide +kernel)
      (by decide +kernel) (by decide +kernel) rfl

/-- A block without transactions has the root of one whose only transaction has the null hash. -/
theorem empty_list_shares_root :
    ¬ ∀ (hash : NodeHash) (first second : List CTransaction),
      (∀ tx ∈ first, ∀ tx' ∈ second, tx.getHash = tx'.getHash → tx = tx') →
      CollisionFree hash (first.map getHash) (second.map getHash) →
      (buildMerkleTree hash first).mutated = false →
      (buildMerkleTree hash second).mutated = false →
      (buildMerkleTree hash first).root = (buildMerkleTree hash second).root →
      first = second := by
  intro claim
  have same := claim sampleNodeHash [] [hashedTx 0] (by decide) (by decide +kernel)
    (by decide +kernel) (by decide +kernel) (by decide +kernel)
  cases same

end Esbcoin
