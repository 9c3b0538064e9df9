import Esbcoin.Chain.BlockIndex

/-!
# The active chain

`CChain::SetTip` (`src/chain.cpp:49-60`) on a block index in which every entry is filed under its
hash, below its parent by one height. A chain is `Linked` if it is the list of a block and its
ancestors.
-/

namespace Esbcoin

/-- The place of an entry in the tree. -/
def CBlockIndex.place (pindex : CBlockIndex) : Option UInt256 × Option UInt256 × Int :=
  (pindex.phashBlock, pindex.pprev, pindex.nHeight)

namespace BlockMap

/-- Every entry is filed under its hash, one above its parent, or at height 0 without one. -/
structure WellFormed (mapBlockIndex : BlockMap) : Prop where
  filed : ∀ {hash pindex}, mapBlockIndex.lookup hash = some pindex → pindex.phashBlock = some hash
  parent : ∀ {hash pindex hashPrev}, mapBlockIndex.lookup hash = some pindex →
    pindex.pprev = some hashPrev →
    ∃ pprev, mapBlockIndex.lookup hashPrev = some pprev ∧ pindex.nHeight = pprev.nHeight + 1
  root : ∀ {hash pindex}, mapBlockIndex.lookup hash = some pindex → pindex.pprev = none →
    pindex.nHeight = 0

/-- The blocks that both know have one place in the tree. -/
def SameTree (first second : BlockMap) : Prop :=
  ∀ hash, (second.lookup hash).map CBlockIndex.place = (first.lookup hash).map CBlockIndex.place

theorem SameTree.refl (mapBlockIndex : BlockMap) : SameTree mapBlockIndex mapBlockIndex :=
  fun _ => rfl

variable {first second : BlockMap}

section

variable (h : SameTree first second)
include h

theorem SameTree.symm :
    SameTree second first := fun hash => (h hash).symm

theorem SameTree.trans {third : BlockMap} (h' : SameTree second third) :
    SameTree first third := fun hash =>
  (h' hash).trans (h hash)

theorem SameTree.lookup {hash : UInt256} {pindex : CBlockIndex}
    (found : first.lookup hash = some pindex) :
    ∃ pindex', second.lookup hash = some pindex' ∧ pindex'.place = pindex.place := by
  have same := h hash
  rw [found, Option.map_some] at same
  exact Option.map_eq_some_iff.mp same

theorem WellFormed.of_sameTree (wellFormed : first.WellFormed) :
    second.WellFormed where
  filed {hash pindex} found := by
    obtain ⟨pindex', found', place⟩ := h.symm.lookup found
    exact (congrArg Prod.fst place).symm.trans (wellFormed.filed found')
  parent {hash pindex hashPrev} found prev := by
    obtain ⟨pindex', found', place⟩ := h.symm.lookup found
    simp only [CBlockIndex.place, Prod.mk.injEq] at place
    obtain ⟨parent, foundParent, height⟩ := wellFormed.parent found' (place.2.1.trans prev)
    obtain ⟨parent', foundParent', place'⟩ := h.lookup foundParent
    simp only [CBlockIndex.place, Prod.mk.injEq] at place'
    refine ⟨parent', foundParent', ?_⟩
    rw [← place.2.2, height, place'.2.2]
  root {hash pindex} found prev := by
    obtain ⟨pindex', found', place⟩ := h.symm.lookup found
    simp only [CBlockIndex.place, Prod.mk.injEq] at place
    rw [← place.2.2]
    exact wellFormed.root found' (place.2.1.trans prev)

end

/-- No block is its own parent. -/
theorem WellFormed.ne_pprev {mapBlockIndex : BlockMap} (wellFormed : mapBlockIndex.WellFormed)
    {hash hashPrev : UInt256} {pindex : CBlockIndex}
    (found : mapBlockIndex.lookup hash = some pindex) (prev : pindex.pprev = some hashPrev) :
    hashPrev ≠ hash := by
  rintro rfl
  obtain ⟨parent, found', height⟩ := wellFormed.parent found prev
  obtain rfl := Option.some.inj (found.symm.trans found')
  omega

end BlockMap

namespace CChain

/-- The loop of `CChain::SetTip`, from `hash` at a height down to where the chain has it. -/
def fill (mapBlockIndex : BlockMap) (vChain : List UInt256) : Nat → UInt256 → List UInt256
  | 0, hash => [hash]
  | nHeight + 1, hash =>
    if vChain[nHeight + 1]? = some hash then vChain.take (nHeight + 2)
    else
      match (mapBlockIndex.lookup hash).bind CBlockIndex.pprev with
      | some hashPrev => fill mapBlockIndex vChain nHeight hashPrev ++ [hash]
      | none => vChain.take (nHeight + 1) ++ [hash]

/-- `CChain::SetTip` (`chain.cpp:49-60`). -/
def setTip (mapBlockIndex : BlockMap) (chain : CChain) : Option UInt256 → CChain
  | none => ⟨[]⟩
  | some hash =>
    match mapBlockIndex.lookup hash with
    | some pindex => ⟨fill mapBlockIndex chain.vChain pindex.nHeight.toNat hash⟩
    | none => chain

/-- The chain is the branch of its tip in the index. -/
structure Linked (mapBlockIndex : BlockMap) (chain : CChain) : Prop where
  entry : ∀ {i : Nat} {hash : UInt256}, chain.vChain[i]? = some hash → ∃ pindex,
    mapBlockIndex.lookup hash = some pindex ∧ pindex.nHeight = i ∧
      pindex.pprev = if i = 0 then none else chain.vChain[i - 1]?

section Linked

variable {mapBlockIndex : BlockMap} {chain : CChain} {hash : UInt256} {pindex : CBlockIndex}

theorem Linked.nil : Linked mapBlockIndex ⟨[]⟩ := ⟨by simp⟩

theorem Linked.of_sameTree {second : BlockMap} (h : mapBlockIndex.SameTree second)
    (linked : Linked mapBlockIndex chain) : Linked second chain where
  entry {i hash} here := by
    obtain ⟨pindex, found, height, prev⟩ := linked.entry here
    obtain ⟨pindex', found', place⟩ := h.lookup found
    simp only [CBlockIndex.place, Prod.mk.injEq] at place
    exact ⟨pindex', found', place.2.2.trans height, place.2.1.trans prev⟩

/-- A block stands at its own height only. -/
theorem Linked.nHeight_eq (linked : Linked mapBlockIndex chain) {i : Nat}
    (here : chain.vChain[i]? = some hash) (found : mapBlockIndex.lookup hash = some pindex) :
    pindex.nHeight = i := by
  obtain ⟨pindex', found', height, -⟩ := linked.entry here
  obtain rfl := Option.some.inj (found.symm.trans found')
  exact height

theorem Linked.index_unique (linked : Linked mapBlockIndex chain) {i j : Nat}
    (first : chain.vChain[i]? = some hash) (second : chain.vChain[j]? = some hash) : i = j := by
  obtain ⟨pindex, found, height, -⟩ := linked.entry first
  have := linked.nHeight_eq second found
  omega

theorem tip_eq_getElem? (chain : CChain) : chain.tip = chain.vChain[chain.vChain.length - 1]? := by
  rw [tip, List.getLast?_eq_getElem?]

theorem Linked.take (linked : Linked mapBlockIndex chain) (n : Nat) :
    Linked mapBlockIndex ⟨chain.vChain.take n⟩ where
  entry {i hash} here := by
    rw [List.getElem?_take] at here
    split at here
    · rename_i below
      obtain ⟨pindex, found, height, prev⟩ := linked.entry here
      refine ⟨pindex, found, height, ?_⟩
      rw [prev]
      by_cases zero : i = 0
      · rw [if_pos zero, if_pos zero]
      · rw [if_neg zero, if_neg zero, List.getElem?_take, if_pos (by omega)]
    · cases here

/-- The child of the tip is at the height that is next. -/
theorem Linked.nHeight_of_pprev (linked : Linked mapBlockIndex chain)
    (wellFormed : mapBlockIndex.WellFormed) (found : mapBlockIndex.lookup hash = some pindex)
    (prev : pindex.pprev = chain.tip) : pindex.nHeight = chain.vChain.length := by
  rw [tip_eq_getElem?] at prev
  cases last : chain.vChain[chain.vChain.length - 1]? with
  | none =>
    rw [last] at prev
    rw [wellFormed.root found prev]
    rw [List.getElem?_eq_none_iff] at last
    have : chain.vChain.length = 0 := by omega
    rw [this]
    rfl
  | some hashPrev =>
    rw [last] at prev
    obtain ⟨parent, foundParent, height⟩ := wellFormed.parent found prev
    rw [height, linked.nHeight_eq last foundParent]
    have := (List.getElem?_eq_some_iff.mp last).1
    omega

/-- Extending a linked chain by a child of its tip. -/
theorem Linked.append (linked : Linked mapBlockIndex chain)
    (wellFormed : mapBlockIndex.WellFormed) (found : mapBlockIndex.lookup hash = some pindex)
    (prev : pindex.pprev = chain.tip) : Linked mapBlockIndex ⟨chain.vChain ++ [hash]⟩ where
  entry {i hash'} here := by
    rcases Nat.lt_trichotomy i chain.vChain.length with below | atEnd | above
    · rw [List.getElem?_append_left below] at here
      obtain ⟨pindex', found', height, prev'⟩ := linked.entry here
      refine ⟨pindex', found', height, ?_⟩
      rw [prev', List.getElem?_append_left (by omega)]
    · subst atEnd
      simp only [List.getElem?_concat_length, Option.some.injEq] at here
      subst here
      refine ⟨pindex, found, linked.nHeight_of_pprev wellFormed found prev, ?_⟩
      rw [prev, tip_eq_getElem?]
      split
      · rename_i empty
        rw [empty]
        simp [List.length_eq_zero_iff.mp empty]
      · rw [List.getElem?_append_left (by omega)]
    · rw [List.getElem?_eq_none (by simp; omega)] at here
      cases here

theorem fill_of_mem {vChain : List UInt256} {n : Nat} (here : vChain[n]? = some hash) :
    fill mapBlockIndex vChain n hash = vChain.take (n + 1) := by
  cases n with
  | zero =>
    cases vChain with
    | nil => simp at here
    | cons first rest =>
      obtain rfl := Option.some.inj here
      rfl
  | succ n => rw [fill, if_pos here]

theorem Linked.setTip_next (linked : Linked mapBlockIndex chain)
    (wellFormed : mapBlockIndex.WellFormed) (found : mapBlockIndex.lookup hash = some pindex)
    (prev : pindex.pprev = chain.tip) :
    chain.setTip mapBlockIndex (some hash) = ⟨chain.vChain ++ [hash]⟩ := by
  have height := linked.nHeight_of_pprev wellFormed found prev
  simp only [setTip, found, height, Int.toNat_natCast]
  congr 1
  cases length : chain.vChain.length with
  | zero => simp [fill, List.length_eq_zero_iff.mp length]
  | succ n =>
    obtain ⟨hashPrev, last⟩ : ∃ hashPrev, chain.vChain[n]? = some hashPrev :=
      ⟨_, List.getElem?_eq_getElem (by omega)⟩
    have tip : chain.tip = some hashPrev := by
      rw [tip_eq_getElem?, length]
      exact last
    rw [fill, List.getElem?_eq_none (by omega), if_neg (by simp), found, Option.bind_some, prev,
      tip]
    simp only
    rw [fill_of_mem last, List.take_of_length_le (by omega)]

theorem Linked.setTip_prev (linked : Linked mapBlockIndex chain)
    (atTip : chain.tip = some hash) (found : mapBlockIndex.lookup hash = some pindex) :
    chain.setTip mapBlockIndex pindex.pprev = ⟨chain.vChain.dropLast⟩ := by
  rw [tip_eq_getElem?] at atTip
  obtain ⟨pindex', found', -, prev⟩ := linked.entry atTip
  obtain rfl := Option.some.inj (found.symm.trans found')
  rw [prev, List.dropLast_eq_take]
  by_cases single : chain.vChain.length - 1 = 0
  · rw [if_pos single, single]
    rfl
  rw [if_neg single]
  obtain ⟨hashPrev, last⟩ : ∃ hashPrev,
      chain.vChain[chain.vChain.length - 1 - 1]? = some hashPrev :=
    ⟨_, List.getElem?_eq_getElem (by omega)⟩
  obtain ⟨parent, foundParent, height, -⟩ := linked.entry last
  rw [last]
  simp only [setTip, foundParent, height, Int.toNat_natCast]
  rw [fill_of_mem last]
  congr 2
  omega

end Linked

end CChain

/-- An active chain on a well-formed index. -/
structure LinkedChain where
  mapBlockIndex : BlockMap
  chainActive : CChain
  wellFormed : mapBlockIndex.WellFormed
  linked : chainActive.Linked mapBlockIndex

/-! ## Blocks that hash to their position -/

/-- A block index of `n` entries, the one at height `h` under the hash `h + 1`. -/
def heightsMap (index : Nat → CBlockIndex) (n : Nat) (small : n < 2 ^ 256) : BlockMap where
  entries := (List.range n).map (fun h => ⟨BitVec.ofNat 256 (h + 1), index h⟩)
  nodupKeys := by
    rw [List.NodupKeys, List.keys, List.map_map]
    refine List.Nodup.map_on ?_ List.nodup_range
    intro first hfirst second hsecond equal
    rw [List.mem_range] at hfirst hsecond
    have values := congrArg BitVec.toNat equal
    simp only [Function.comp_apply, BitVec.toNat_ofNat] at values
    rw [Nat.mod_eq_of_lt (by omega), Nat.mod_eq_of_lt (by omega)] at values
    omega

variable {index : Nat → CBlockIndex} {n : Nat}

theorem heightsMap_lookup_iff (small : n < 2 ^ 256) {hash : UInt256} {pindex : CBlockIndex} :
    (heightsMap index n small).lookup hash = some pindex ↔
      ∃ h < n, BitVec.ofNat 256 (h + 1) = hash ∧ index h = pindex := by
  rw [← Option.mem_def, AList.mem_lookup_iff]
  simp only [heightsMap, List.mem_map, List.mem_range, Sigma.mk.injEq, heq_eq_eq]

/-- The first entry is filed under 1. -/
theorem heightsMap_lookup_one (small : n < 2 ^ 256) {pindex : CBlockIndex}
    (found : (heightsMap index n small).lookup 1 = some pindex) : pindex = index 0 := by
  obtain ⟨h, below, hash, rfl⟩ := (heightsMap_lookup_iff small).mp found
  have value : (h + 1) % 2 ^ 256 = 1 := congrArg BitVec.toNat hash
  obtain rfl : h = 0 := by omega
  rfl

/-- Entries at the right places make a well-formed tree. -/
theorem heightsMap_wellFormed (place : ∀ h, (index h).place =
      (some (BitVec.ofNat 256 (h + 1)), if h = 0 then none else some (BitVec.ofNat 256 h), (h : Int)))
    (small : n < 2 ^ 256) : (heightsMap index n small).WellFormed := by
  simp only [CBlockIndex.place, Prod.mk.injEq] at place
  constructor
  · intro hash pindex found
    obtain ⟨h, -, rfl, rfl⟩ := (heightsMap_lookup_iff small).mp found
    exact (place h).1
  · intro hash pindex hashPrev found prev
    obtain ⟨h, below, rfl, rfl⟩ := (heightsMap_lookup_iff small).mp found
    rw [(place h).2.1] at prev
    cases h with
    | zero => cases prev
    | succ h =>
      rw [if_neg (Nat.succ_ne_zero h)] at prev
      refine ⟨index h, (heightsMap_lookup_iff small).mpr ⟨h, by omega, Option.some.inj prev, rfl⟩, ?_⟩
      rw [(place _).2.2, (place _).2.2]
      omega
  · intro hash pindex found prev
    obtain ⟨h, -, rfl, rfl⟩ := (heightsMap_lookup_iff small).mp found
    rw [(place h).2.1] at prev
    rw [(place h).2.2]
    split at prev
    · rename_i zero
      rw [zero]
      rfl
    · cases prev

/-- The chain of all blocks. -/
theorem heightsMap_linked (place : ∀ h, (index h).place =
      (some (BitVec.ofNat 256 (h + 1)), if h = 0 then none else some (BitVec.ofNat 256 h), (h : Int)))
    (small : n < 2 ^ 256) :
    CChain.Linked (heightsMap index n small)
      ⟨(List.range n).map (fun h => BitVec.ofNat 256 (h + 1))⟩ := by
  simp only [CBlockIndex.place, Prod.mk.injEq] at place
  constructor
  intro i hash here
  simp only [List.getElem?_map] at here ⊢
  obtain ⟨h, found, rfl⟩ := Option.map_eq_some_iff.mp here
  obtain ⟨below, rfl⟩ := List.getElem?_eq_some_iff.mp found
  rw [List.length_range] at below
  rw [List.getElem_range]
  refine ⟨index i, (heightsMap_lookup_iff small).mpr ⟨i, below, rfl, rfl⟩, (place i).2.2, ?_⟩
  rw [(place i).2.1]
  cases i with
  | zero => rfl
  | succ i => simp [List.getElem?_range (show i < n by omega)]

end Esbcoin
