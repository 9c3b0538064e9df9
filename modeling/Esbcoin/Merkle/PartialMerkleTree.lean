import Esbcoin.Lib.PartialTree
import Esbcoin.Merkle

/-!
# Partial merkle trees

Rendering of `CPartialMerkleTree` (`src/merkleblock.h`, `src/merkleblock.cpp:38-155`).
-/

namespace Esbcoin

open PairedLevels PartialTree List

/-- `MAX_BLOCK_SIZE` (`primitives/block.h:16`), divided as `ExtractMatches` does. -/
def maxPartialTransactions : Nat := 2000000 / 60

/-- `CPartialMerkleTree` (`merkleblock.h:53-141`). -/
structure CPartialMerkleTree where
  nTransactions : UInt32
  vBits : List Bool
  vHash : List UInt256
  fBad : Bool
deriving DecidableEq, Repr

namespace CPartialMerkleTree

/-- `CalcTreeWidth` (`merkleblock.h:68-71`). Every width that is asked for has fewer than 2^32
positions, so the 32-bit sum does not wrap. -/
def calcTreeWidth (nTransactions height : Nat) : Nat := (nTransactions + 1 <<< height - 1) >>> height

theorem calcTreeWidth_eq (nTransactions height : Nat) :
    calcTreeWidth nTransactions height = width nTransactions height := by
  rw [calcTreeWidth, width_eq, Nat.shiftRight_eq_div_pow, Nat.one_shiftLeft]

/-- The loop that looks for the height of the tree (`merkleblock.cpp:113-115, 139-141`). -/
def heightFrom (nTransactions nHeight : Nat) : Nat :=
  if calcTreeWidth nTransactions nHeight > 1 then heightFrom nTransactions (nHeight + 1)
  else nHeight
termination_by calcTreeWidth nTransactions nHeight
decreasing_by
  rename_i wide
  rw [calcTreeWidth_eq] at wide
  rw [calcTreeWidth_eq, calcTreeWidth_eq, width]
  omega

theorem heightFrom_eq (nTransactions nHeight : Nat) (le : nHeight ≤ height nTransactions) :
    heightFrom nTransactions nHeight = height nTransactions := by
  fun_induction heightFrom nTransactions nHeight with
  | case1 nHeight wide ih =>
    rw [calcTreeWidth_eq, gt_iff_lt, one_lt_width_iff] at wide
    exact ih wide
  | case2 nHeight narrow =>
    rw [calcTreeWidth_eq, gt_iff_lt, one_lt_width_iff] at narrow
    omega

section Build

variable (hash : NodeHash) (vTxid : List UInt256) (vMatch : List Bool)

/-- `CalcHash` (`merkleblock.cpp:38-54`). -/
def calcHash : Nat → Nat → UInt256
  | 0, pos => vTxid.getD pos 0
  | height + 1, pos =>
    let left := calcHash height (pos * 2)
    let right :=
      if pos * 2 + 1 < calcTreeWidth vTxid.length height then calcHash height (pos * 2 + 1)
      else left
    hash left right

/-- `fParentOfMatch` (`merkleblock.cpp:59-61`). -/
def parentOfMatch (height pos : Nat) : Bool :=
  (List.range' (pos <<< height) (min ((pos + 1) <<< height) vTxid.length - pos <<< height)).any
    fun p => vMatch.getD p false

/-- `TraverseAndBuild` (`merkleblock.cpp:56-73`). -/
def traverseAndBuild : Nat → Nat → CPartialMerkleTree → CPartialMerkleTree
  | 0, pos, tree =>
    { tree with
      vBits := tree.vBits ++ [parentOfMatch vTxid vMatch 0 pos]
      vHash := tree.vHash ++ [calcHash hash vTxid 0 pos] }
  | height + 1, pos, tree =>
    let fParentOfMatch := parentOfMatch vTxid vMatch (height + 1) pos
    let tree := { tree with vBits := tree.vBits ++ [fParentOfMatch] }
    if !fParentOfMatch then
      { tree with vHash := tree.vHash ++ [calcHash hash vTxid (height + 1) pos] }
    else
      let tree := traverseAndBuild height (pos * 2) tree
      if pos * 2 + 1 < calcTreeWidth vTxid.length height then
        traverseAndBuild height (pos * 2 + 1) tree
      else tree

/-- `CPartialMerkleTree::CPartialMerkleTree` of the hashes and the matches of a block
(`merkleblock.cpp:106-119`). -/
def build : CPartialMerkleTree :=
  traverseAndBuild hash vTxid vMatch (heightFrom vTxid.length 0) 0
    ⟨UInt32.ofNat vTxid.length, [], [], false⟩

end Build

/-- What `TraverseAndExtract` works on. -/
structure Extracting where
  nBitsUsed : Nat := 0
  nHashUsed : Nat := 0
  vMatch : List UInt256 := []
  fBad : Bool

section Extract

variable (hash : NodeHash) (tree : CPartialMerkleTree)

/-- `TraverseAndExtract` (`merkleblock.cpp:75-104`). -/
def traverseAndExtract : Nat → Nat → Extracting → UInt256 × Extracting
  | height, pos, s =>
    match tree.vBits[s.nBitsUsed]? with
    | none => (0, { s with fBad := true })
    | some fParentOfMatch =>
      let s := { s with nBitsUsed := s.nBitsUsed + 1 }
      match height, fParentOfMatch with
      | height + 1, true =>
        let (left, s) := traverseAndExtract height (pos * 2) s
        let (right, s) :=
          if pos * 2 + 1 < calcTreeWidth tree.nTransactions.toNat height then
            traverseAndExtract height (pos * 2 + 1) s
          else (left, s)
        (hash left right, s)
      | _, _ =>
        match tree.vHash[s.nHashUsed]? with
        | none => (0, { s with fBad := true })
        | some txid =>
          let s := { s with nHashUsed := s.nHashUsed + 1 }
          (txid, if height = 0 ∧ fParentOfMatch then { s with vMatch := s.vMatch ++ [txid] } else s)

/-- `ExtractMatches` (`merkleblock.cpp:123-155`): the root and `vMatch`. -/
def extractMatches : UInt256 × List UInt256 :=
  let nTransactions := tree.nTransactions.toNat
  if nTransactions = 0 then (0, [])
  else if nTransactions > maxPartialTransactions then (0, [])
  else if tree.vHash.length > nTransactions then (0, [])
  else if tree.vBits.length < tree.vHash.length then (0, [])
  else
    let (hashMerkleRoot, s) :=
      traverseAndExtract hash tree (heightFrom nTransactions 0) 0 { fBad := tree.fBad }
    if s.fBad then (0, s.vMatch)
    else if (s.nBitsUsed + 7) / 8 ≠ (tree.vBits.length + 7) / 8 then (0, s.vMatch)
    else if s.nHashUsed ≠ tree.vHash.length then (0, s.vMatch)
    else (hashMerkleRoot, s.vMatch)

end Extract

/-! ## What the constructor spells -/

section Spells

variable {hash : NodeHash} {vTxid : List UInt256} {vMatch : List Bool}

/-- The part of the tree over the hashes that leads to the matches. -/
def prunedTree (hash : NodeHash) (vTxid : List UInt256) (vMatch : List Bool) :
    Nat → Nat → PartialTree UInt256 :=
  prune hash vTxid (fun p => vMatch.getD p false) 0

theorem getElem?_calcHash (hash : NodeHash) {height pos : Nat} (inside : pos < width vTxid.length height) :
    (level hash vTxid height)[pos]? = some (calcHash hash vTxid height pos) := by
  induction height generalizing pos with
  | zero =>
    have here : pos < vTxid.length := inside
    rw [level, calcHash, getD_eq_getElem?_getD, List.getElem?_eq_getElem here,
      Option.getD_some]
  | succ height ih =>
    have here : pos < (level hash vTxid (height + 1)).length := by
      rw [length_level]
      exact inside
    obtain ⟨c, found⟩ : ∃ c, (level hash vTxid (height + 1))[pos]? = some c :=
      ⟨_, List.getElem?_eq_getElem here⟩
    obtain ⟨a, b, -, same, left, right⟩ := getElem?_level_succ hash found
    rw [width] at inside
    rw [ih (by omega)] at left
    rw [ih (by omega)] at right
    rw [found, calcHash, calcTreeWidth_eq, Nat.mul_comm pos 2, Option.some.inj left, same,
      ← Option.some.inj right]
    by_cases pair : 2 * pos + 1 < width vTxid.length height
    · rw [if_pos pair, Nat.min_eq_left (by omega)]
    · rw [if_neg pair, show min (2 * pos + 1) (width vTxid.length height - 1) = 2 * pos by omega,
        Option.some.inj left]

theorem parentOfMatch_eq (height pos : Nat) :
    parentOfMatch vTxid vMatch height pos =
      (under vTxid.length height pos).any fun p => vMatch.getD p false := by
  rw [parentOfMatch, under, Nat.shiftLeft_eq, Nat.shiftLeft_eq]

theorem traverseAndBuild_eq {height pos : Nat} (inside : pos < width vTxid.length height)
    (tree : CPartialMerkleTree) :
    traverseAndBuild hash vTxid vMatch height pos tree =
      { tree with
        vBits := tree.vBits ++ (prunedTree hash vTxid vMatch height pos).flags
        vHash := tree.vHash ++ (prunedTree hash vTxid vMatch height pos).values } := by
  induction height generalizing pos tree with
  | zero =>
    have here : pos < vTxid.length := inside
    have alone : under vTxid.length 0 pos = [pos] := under_zero here
    rw [traverseAndBuild, parentOfMatch_eq, alone, prunedTree, prune, calcHash,
      any_cons, any_nil, Bool.or_false]
    cases vMatch.getD pos false <;> rfl
  | succ height ih =>
    have value := getElem?_calcHash hash inside
    rw [width] at inside
    rw [traverseAndBuild, parentOfMatch_eq, prunedTree, prune]
    cases (under vTxid.length (height + 1) pos).any fun p => vMatch.getD p false with
    | false =>
      rw [getD_eq_getElem?_getD, value, Option.getD_some]
      rfl
    | true =>
      have first := @ih (2 * pos) (by omega)
      simp only [Bool.not_true, Bool.false_eq_true, if_false, if_true, calcTreeWidth_eq]
      rw [Nat.mul_comm pos 2, first]
      by_cases pair : 2 * pos + 1 < width vTxid.length height
      · rw [if_pos pair, if_pos pair, ih pair]
        simp only [PartialTree.flags, PartialTree.values, append_assoc, cons_append,
          nil_append]
        rfl
      rw [if_neg pair, if_neg pair]
      simp only [PartialTree.flags, PartialTree.values, append_assoc, cons_append,
        nil_append]
      rfl

/-- The fields of a tree that is built. -/
theorem build_eq (some : vTxid ≠ []) :
    build hash vTxid vMatch =
      ⟨UInt32.ofNat vTxid.length,
        (prunedTree hash vTxid vMatch (height vTxid.length) 0).flags,
        (prunedTree hash vTxid vMatch (height vTxid.length) 0).values, false⟩ := by
  have positive := length_pos_iff.mpr some
  rw [build, heightFrom_eq _ _ (Nat.zero_le _),
    traverseAndBuild_eq (by rw [width_height positive]; exact Nat.one_pos)]
  rfl

end Spells

/-! ## What is extracted -/

section Extracted

open PartialTree (Fits)

variable {hash : NodeHash} {tree : CPartialMerkleTree}

theorem drop_of_getElem? {α : Type} {l : List α} {i : Nat} {a : α} (found : l[i]? = some a) :
    l.drop i = a :: l.drop (i + 1) := by
  obtain ⟨inside, rfl⟩ := List.getElem?_eq_some_iff.mp found
  exact drop_eq_getElem_cons inside

theorem getElem?_of_drop {α : Type} {l rest : List α} {i : Nat} {a : α}
    (dropped : l.drop i = a :: rest) : l[i]? = some a ∧ l.drop (i + 1) = rest := by
  have found : l[i]? = some a := by
    rw [← List.head?_drop, dropped]
    rfl
  rw [drop_of_getElem? found] at dropped
  exact ⟨found, (List.cons.inj dropped).2⟩

variable {s : Extracting} {pos : Nat}

/-- A node whose flag is missing. -/
theorem traverseAndExtract_noFlag {height : Nat} (flag : tree.vBits[s.nBitsUsed]? = none) :
    traverseAndExtract hash tree height pos s = (0, { s with fBad := true }) := by
  rw [traverseAndExtract, flag]

/-- A node that is stored, and its value is missing. -/
theorem traverseAndExtract_noValue {height : Nat} {fParentOfMatch : Bool}
    (flag : tree.vBits[s.nBitsUsed]? = some fParentOfMatch)
    (stored : height = 0 ∨ fParentOfMatch = false) (value : tree.vHash[s.nHashUsed]? = none) :
    traverseAndExtract hash tree height pos s =
      (0, { s with nBitsUsed := s.nBitsUsed + 1, fBad := true }) := by
  rw [traverseAndExtract, flag]
  cases height with
  | zero =>
    dsimp only
    rw [value]
  | succ height =>
    obtain rfl := stored.resolve_left (Nat.succ_ne_zero height)
    dsimp only
    rw [value]

/-- A node that is stored. -/
theorem traverseAndExtract_stored {height : Nat} {fParentOfMatch : Bool} {txid : UInt256}
    (flag : tree.vBits[s.nBitsUsed]? = some fParentOfMatch)
    (stored : height = 0 ∨ fParentOfMatch = false) (value : tree.vHash[s.nHashUsed]? = some txid) :
    traverseAndExtract hash tree height pos s =
      (txid, ⟨s.nBitsUsed + 1, s.nHashUsed + 1,
        if fParentOfMatch then s.vMatch ++ [txid] else s.vMatch, s.fBad⟩) := by
  rw [traverseAndExtract, flag]
  cases height with
  | zero =>
    dsimp only
    rw [value]
    cases fParentOfMatch <;> rfl
  | succ height =>
    obtain rfl := stored.resolve_left (Nat.succ_ne_zero height)
    dsimp only
    rw [value]
    rfl

/-- A node that is visited. -/
theorem traverseAndExtract_visited {height : Nat} (flag : tree.vBits[s.nBitsUsed]? = some true) :
    traverseAndExtract hash tree (height + 1) pos s =
      let (left, s) :=
        traverseAndExtract hash tree height (2 * pos) { s with nBitsUsed := s.nBitsUsed + 1 }
      let (right, s) :=
        if 2 * pos + 1 < width tree.nTransactions.toNat height then
          traverseAndExtract hash tree height (2 * pos + 1) s
        else (left, s)
      (hash left right, s) := by
  rw [traverseAndExtract, flag]
  simp only [calcTreeWidth_eq, Nat.mul_comm pos 2]

theorem traverseAndExtract_of_fits (hash : NodeHash) {height : Nat} {t : PartialTree UInt256}
    (fits : Fits tree.nTransactions.toNat height pos t) (s : Extracting) {bits : List Bool}
    {hashes : List UInt256} (spelled : tree.vBits.drop s.nBitsUsed = t.flags ++ bits)
    (valued : tree.vHash.drop s.nHashUsed = t.values ++ hashes) :
    traverseAndExtract hash tree height pos s =
        (t.top hash, ⟨s.nBitsUsed + t.flags.length, s.nHashUsed + t.values.length,
          s.vMatch ++ t.marks, s.fBad⟩) ∧
      tree.vBits.drop (s.nBitsUsed + t.flags.length) = bits ∧
      tree.vHash.drop (s.nHashUsed + t.values.length) = hashes := by
  induction fits generalizing s bits hashes with
  | stub height pos a =>
    obtain ⟨flag, bits_left⟩ := getElem?_of_drop spelled
    obtain ⟨value, hashes_left⟩ := getElem?_of_drop valued
    refine ⟨?_, bits_left, hashes_left⟩
    rw [traverseAndExtract_stored flag (Or.inr rfl) value, PartialTree.marks, append_nil]
    rfl
  | marked pos a =>
    obtain ⟨flag, bits_left⟩ := getElem?_of_drop spelled
    obtain ⟨value, hashes_left⟩ := getElem?_of_drop valued
    refine ⟨?_, bits_left, hashes_left⟩
    rw [traverseAndExtract_stored flag (Or.inl rfl) value]
    rfl
  | @last height pos child single child_fits ih =>
    obtain ⟨flag, bits_left⟩ := getElem?_of_drop spelled
    obtain ⟨run, bits_end, hashes_end⟩ := ih { s with nBitsUsed := s.nBitsUsed + 1 } bits_left valued
    refine ⟨?_, ?_, hashes_end⟩
    · rw [traverseAndExtract_visited flag, run]
      simp only [if_neg single]
      simp only [PartialTree.flags, length_cons, PartialTree.top, PartialTree.values,
        PartialTree.marks, Nat.add_assoc, Nat.add_comm 1]
    · rw [PartialTree.flags, length_cons, Nat.add_comm _ 1, ← Nat.add_assoc]
      exact bits_end
  | @fork height pos left right pair left_fits right_fits ihl ihr =>
    rw [PartialTree.flags, cons_append, append_assoc] at spelled
    rw [PartialTree.values, append_assoc] at valued
    obtain ⟨flag, bits_left⟩ := getElem?_of_drop spelled
    obtain ⟨run, bits_mid, hashes_mid⟩ :=
      ihl { s with nBitsUsed := s.nBitsUsed + 1 } bits_left valued
    obtain ⟨run', bits_end, hashes_end⟩ := ihr
      ⟨s.nBitsUsed + 1 + left.flags.length, s.nHashUsed + left.values.length, s.vMatch ++ left.marks,
        s.fBad⟩ bits_mid hashes_mid
    refine ⟨?_, ?_, ?_⟩
    · rw [traverseAndExtract_visited flag, run]
      simp only [if_pos pair, run']
      simp only [PartialTree.flags, length_cons, length_append, PartialTree.top,
        PartialTree.values, PartialTree.marks, Nat.add_assoc, Nat.add_comm 1, append_assoc]
    · rw [PartialTree.flags, length_cons, length_append, Nat.add_comm _ 1, ← Nat.add_assoc,
        ← Nat.add_assoc]
      exact bits_end
    · rw [PartialTree.values, length_append, ← Nat.add_assoc]
      exact hashes_end

/-- A failure is never taken back. -/
theorem fBad_traverseAndExtract (height pos : Nat) (bad : s.fBad = true) :
    (traverseAndExtract hash tree height pos s).2.fBad = true := by
  have stored : ∀ {height pos : Nat} {s : Extracting} {fParentOfMatch : Bool}, s.fBad = true →
      tree.vBits[s.nBitsUsed]? = some fParentOfMatch → (height = 0 ∨ fParentOfMatch = false) →
      (traverseAndExtract hash tree height pos s).2.fBad = true := by
    intro height pos s fParentOfMatch bad flag stored
    cases value : tree.vHash[s.nHashUsed]? with
    | none => rw [traverseAndExtract_noValue flag stored value]
    | some txid =>
      rw [traverseAndExtract_stored flag stored value]
      exact bad
  induction height generalizing pos s with
  | zero =>
    cases flag : tree.vBits[s.nBitsUsed]? with
    | none => rw [traverseAndExtract_noFlag flag]
    | some fParentOfMatch => exact stored bad flag (Or.inl rfl)
  | succ height ih =>
    cases flag : tree.vBits[s.nBitsUsed]? with
    | none => rw [traverseAndExtract_noFlag flag]
    | some fParentOfMatch =>
      cases fParentOfMatch with
      | false => exact stored bad flag (Or.inr rfl)
      | true =>
        have left := ih (2 * pos) (s := { s with nBitsUsed := s.nBitsUsed + 1 }) bad
        rw [traverseAndExtract_visited flag]
        dsimp only
        split
        · exact ih _ left
        · exact left

/-- Where nothing is spelled, the extraction fails. -/
theorem fBad_of_read_eq_none {height pos : Nat} {s : Extracting}
    (unreadable : PartialTree.read tree.nTransactions.toNat height pos
      (tree.vBits.drop s.nBitsUsed) (tree.vHash.drop s.nHashUsed) = none) :
    (traverseAndExtract hash tree height pos s).2.fBad = true := by
  induction height generalizing pos s with
  | zero =>
    cases flag : tree.vBits[s.nBitsUsed]? with
    | none => rw [traverseAndExtract_noFlag flag]
    | some fParentOfMatch =>
      rw [drop_of_getElem? flag] at unreadable
      cases value : tree.vHash[s.nHashUsed]? with
      | none => rw [traverseAndExtract_noValue flag (Or.inl rfl) value]
      | some txid =>
        rw [drop_of_getElem? value] at unreadable
        cases fParentOfMatch <;> cases unreadable
  | succ height ih =>
    cases flag : tree.vBits[s.nBitsUsed]? with
    | none => rw [traverseAndExtract_noFlag flag]
    | some fParentOfMatch =>
      rw [drop_of_getElem? flag] at unreadable
      cases fParentOfMatch with
      | false =>
        cases value : tree.vHash[s.nHashUsed]? with
        | none => rw [traverseAndExtract_noValue flag (Or.inr rfl) value]
        | some txid =>
          rw [drop_of_getElem? value] at unreadable
          cases unreadable
      | true =>
        rw [PartialTree.read] at unreadable
        rw [traverseAndExtract_visited flag]
        cases first : PartialTree.read tree.nTransactions.toNat height (2 * pos)
            (tree.vBits.drop (s.nBitsUsed + 1)) (tree.vHash.drop s.nHashUsed) with
        | none =>
          have left := @ih (2 * pos) { s with nBitsUsed := s.nBitsUsed + 1 } first
          dsimp only
          split
          · exact fBad_traverseAndExtract _ _ left
          · exact left
        | some result =>
          obtain ⟨left, bits, hashes⟩ := result
          rw [first, Option.bind_some] at unreadable
          obtain ⟨fits, spelled, valued⟩ := (read_eq_some_iff ..).mp first
          obtain ⟨run, bits_left, hashes_left⟩ := traverseAndExtract_of_fits hash fits
            { s with nBitsUsed := s.nBitsUsed + 1 } spelled valued
          rw [run]
          dsimp only at unreadable ⊢
          by_cases pair : 2 * pos + 1 < width tree.nTransactions.toNat height
          · rw [if_pos pair, Option.map_eq_none_iff, ← bits_left, ← hashes_left] at unreadable
            rw [if_pos pair]
            exact ih unreadable
          · rw [if_neg pair] at unreadable
            cases unreadable

/-- The flags and hashes of a message spell a part of the tree. -/
structure Spells (tree : CPartialMerkleTree) (t : PartialTree UInt256) (padding : List Bool) :
    Prop where
  fits : Fits tree.nTransactions.toNat (height tree.nTransactions.toNat) 0 t
  bits : tree.vBits = t.flags ++ padding
  hashes : tree.vHash = t.values

/-- What passes the tests of `ExtractMatches`: there are as many transactions as there may be, and
all bytes of flags and all hashes are used. -/
structure Extractable (tree : CPartialMerkleTree) (t : PartialTree UInt256) (padding : List Bool) :
    Prop extends Spells tree t padding where
  some : 0 < tree.nTransactions.toNat
  bounded : tree.nTransactions.toNat ≤ maxPartialTransactions
  few : t.values.length ≤ tree.nTransactions.toNat
  padded : (t.flags.length + 7) / 8 = (t.flags.length + padding.length + 7) / 8
  good : tree.fBad = false

theorem extractMatches_of_extractable {t : PartialTree UInt256} {padding : List Bool}
    (able : Extractable tree t padding) : tree.extractMatches hash = (t.top hash, t.marks) := by
  obtain ⟨⟨fits, bits, hashes⟩, some, bounded, few, padded, good⟩ := able
  have values := t.length_values_le
  obtain ⟨run, -, -⟩ := traverseAndExtract_of_fits hash fits { fBad := false } bits
    (hashes.trans (append_nil _).symm)
  unfold extractMatches
  rw [if_neg (by omega), if_neg (by omega), if_neg (by rw [hashes]; omega),
    if_neg (by rw [bits, hashes, length_append]; omega),
    heightFrom_eq _ _ (Nat.zero_le _), good, run]
  dsimp only
  rw [if_neg Bool.false_ne_true, if_neg (by rw [bits, length_append, Nat.zero_add]; omega),
    if_neg (by rw [hashes]; omega), nil_append]

/-- A root that is not null is that of a tree which the fields spell. -/
theorem extractable_of_extractMatches (real : (tree.extractMatches hash).1 ≠ 0) :
    ∃ t padding, Extractable tree t padding := by
  unfold extractMatches at real
  dsimp only at real
  by_cases none : tree.nTransactions.toNat = 0
  · rw [if_pos none] at real
    exact absurd rfl real
  rw [if_neg none] at real
  by_cases many : tree.nTransactions.toNat > maxPartialTransactions
  · rw [if_pos many] at real
    exact absurd rfl real
  rw [if_neg many] at real
  by_cases more : tree.vHash.length > tree.nTransactions.toNat
  · rw [if_pos more] at real
    exact absurd rfl real
  rw [if_neg more] at real
  by_cases fewer : tree.vBits.length < tree.vHash.length
  · rw [if_pos fewer] at real
    exact absurd rfl real
  rw [if_neg fewer, heightFrom_eq _ _ (Nat.zero_le _)] at real
  cases found : PartialTree.read tree.nTransactions.toNat (height tree.nTransactions.toNat) 0
      tree.vBits tree.vHash with
  | none =>
    have bad := @fBad_of_read_eq_none hash tree _ 0 { fBad := tree.fBad } found
    rw [if_pos bad] at real
    exact absurd rfl real
  | some result =>
    obtain ⟨t, padding, hashes⟩ := result
    obtain ⟨fits, bits_eq, hashes_eq⟩ := (read_eq_some_iff ..).mp found
    obtain ⟨run, -, -⟩ := traverseAndExtract_of_fits hash fits { fBad := tree.fBad }
      bits_eq hashes_eq
    rw [run] at real
    by_cases bad : tree.fBad = true
    · rw [if_pos bad] at real
      exact absurd rfl real
    rw [if_neg bad] at real
    by_cases unused : (0 + t.flags.length + 7) / 8 ≠ (tree.vBits.length + 7) / 8
    · rw [if_pos unused] at real
      exact absurd rfl real
    rw [if_neg unused] at real
    by_cases left : 0 + t.values.length ≠ tree.vHash.length
    · rw [if_pos left] at real
      exact absurd rfl real
    have length := congrArg List.length hashes_eq
    have bits_length := congrArg List.length bits_eq
    rw [length_append] at length bits_length
    have whole : hashes = [] := length_eq_zero_iff.mp (by omega)
    rw [whole, append_nil] at hashes_eq
    refine ⟨t, padding, ⟨fits, bits_eq, hashes_eq⟩, by omega, by omega, by omega, by omega, ?_⟩
    exact Bool.eq_false_iff.mpr bad

end Extracted

end CPartialMerkleTree

end Esbcoin
