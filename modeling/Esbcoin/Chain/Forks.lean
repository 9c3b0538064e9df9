import Esbcoin.Chain.Skip

/-!
# Forks

`CChain::SetTip`, `GetLocator` and `FindFork` (`src/chain.cpp:49-98`), `LastCommonAncestor` and
`FindForkInGlobalIndex` (`src/main.cpp:439-457`, `:579-591`) over an index with its skip pointers.
-/

namespace Esbcoin

open BlockMap Forest Option List

namespace BlockMap

/-- The one block is the other or an ancestor of it. -/
def AncestorOf (mapBlockIndex : BlockMap) (ancestor hash : UInt256) : Prop :=
  ∃ n, mapBlockIndex.pprevTimes n hash = some ancestor

/-- No two blocks of the index are without a parent. -/
def OneRoot (mapBlockIndex : BlockMap) : Prop :=
  ∀ {root root' : UInt256} {pindex pindex' : CBlockIndex}, mapBlockIndex.lookup root = some pindex →
    mapBlockIndex.lookup root' = some pindex' → pindex.pprev = none → pindex'.pprev = none →
    root = root'

end BlockMap

theorem Grounded.ancestor_iff {map : BlockMap} (grounded : Grounded map) {ancestor hash : UInt256} :
    grounded.forest.Ancestor ancestor hash ↔ map.AncestorOf ancestor hash := by
  simp only [Forest.Ancestor, BlockMap.AncestorOf, grounded.forest_up]

section Chains

variable {map : BlockMap} {chain : CChain} {hash : UInt256} {pindex : CBlockIndex}

/-- The chain is the branch of a block, or empty. -/
def CChain.Follows (chain : CChain) (map : BlockMap) (tip : Option UInt256) : Prop :=
  ∀ h : Nat, chain.vChain[h]? = tip.bind fun hash =>
    if h ≤ map.heightOf hash then map.pprevTimes (map.heightOf hash - h) hash else none

section

variable (linked : chain.Linked map)
include linked

/-- A block of a linked chain stands on its own branch. -/
theorem CChain.Linked.atHeight_eq (grounded : Grounded map) {i h : Nat}
    (here : chain.vChain[i]? = some hash) (below : h ≤ i) :
    chain.vChain[h]? = grounded.forest.atHeight h hash := by
  induction i generalizing hash with
  | zero =>
    obtain ⟨pindex, found, height, -⟩ := linked.entry here
    obtain rfl : h = 0 := Nat.le_zero.mp below
    have level : grounded.forest.height hash = 0 := by
      show map.heightOf hash = 0
      rw [heightOf_of_lookup found, height]
      rfl
    rw [here, ← level, atHeight_self]
  | succ i ih =>
    obtain ⟨pindex, found, height, prev⟩ := linked.entry here
    have level : grounded.forest.height hash = i + 1 := by
      show map.heightOf hash = i + 1
      rw [heightOf_of_lookup found, height]
      rfl
    rcases Nat.lt_or_ge h (i + 1) with lower | same
    · rw [if_neg (Nat.succ_ne_zero i), Nat.add_sub_cancel] at prev
      have inside := (List.getElem?_eq_some_iff.mp here).1
      obtain ⟨hashPrev, herePrev⟩ : ∃ hashPrev, chain.vChain[i]? = some hashPrev :=
        ⟨_, List.getElem?_eq_getElem (by omega)⟩
      have parent : grounded.forest.parent hash = some hashPrev := by
        show map.pprevOf hash = some hashPrev
        rw [pprevOf_of_lookup found, prev, herePrev]
      have levelPrev := grounded.forest.above parent
      rw [ih herePrev (by omega)]
      exact (atHeight_of_ancestor (ancestor_of_parent parent) (by omega)).symm
    · obtain rfl : h = i + 1 := by omega
      rw [here, ← level, atHeight_self]

theorem CChain.Linked.mem_iff (found : map.lookup hash = some pindex) :
    hash ∈ chain.vChain ↔ chain.vChain[map.heightOf hash]? = some hash := by
  constructor
  · intro member
    obtain ⟨i, here⟩ := List.getElem?_of_mem member
    have level := linked.nHeight_eq here found
    rw [heightOf_of_lookup found, level, Int.toNat_natCast, here]
  · exact mem_of_getElem?

theorem CChain.Linked.contains_iff (grounded : Grounded map) (found : map.lookup hash = some pindex)
    :
    chain.contains hash pindex = true ↔ hash ∈ chain.vChain := by
  have low := grounded.height found
  rw [linked.mem_iff found, heightOf_of_lookup found, contains, atHeight,
    if_neg (by omega), beq_iff_eq]

theorem CChain.Linked.mem_of_ancestor (grounded : Grounded map) (member : hash ∈ chain.vChain)
    {ancestor : UInt256} (lower : grounded.forest.Ancestor ancestor hash) :
    ancestor ∈ chain.vChain := by
  obtain ⟨i, here⟩ := List.getElem?_of_mem member
  obtain ⟨pindex, found, height, -⟩ := linked.entry here
  have level := lower.height_le
  have top : grounded.forest.height hash = i := by
    show map.heightOf hash = i
    rw [heightOf_of_lookup found, height]
    rfl
  have slot := linked.atHeight_eq grounded here (show grounded.forest.height ancestor ≤ i by omega)
  rw [atHeight_eq_some.mpr ⟨lower, rfl⟩] at slot
  exact mem_of_getElem? slot

/-! ## The chain behind `SetTip` -/

/-- The loop of `SetTip` makes the branch of the block. -/
theorem CChain.Linked.fill_eq (grounded : Grounded map) {n : Nat}
    (found : map.lookup hash = some pindex) (level : map.heightOf hash = n) (h : Nat) :
    (fill map chain.vChain n hash)[h]? = grounded.forest.atHeight h hash := by
  have level' : grounded.forest.height hash = n := level
  induction n generalizing hash pindex h with
  | zero =>
    cases h with
    | zero => exact (level' ▸ atHeight_self hash).symm
    | succ h =>
      rw [Forest.atHeight, if_neg (by omega)]
      rfl
  | succ n ih =>
    rw [fill]
    split
    · rename_i here
      rw [List.getElem?_take]
      split
      · exact linked.atHeight_eq grounded here (by omega)
      · rw [Forest.atHeight, if_neg (by omega)]
    obtain ⟨hashPrev, parent⟩ :=
      @exists_parent _ grounded.forest hash (by omega)
    obtain ⟨p, foundPrev⟩ := grounded.filed_of_pprevOf parent
    have levelPrev := grounded.forest.above parent
    have levelPrev : map.heightOf hashPrev = n := by
      have : map.heightOf hash = map.heightOf hashPrev + 1 := levelPrev
      omega
    have below := fun h => ih foundPrev levelPrev h levelPrev
    have length : (fill map chain.vChain n hashPrev).length = n + 1 := by
      have levelPrev : grounded.forest.height hashPrev = n := levelPrev
      have there : (fill map chain.vChain n hashPrev)[n]? = some hashPrev :=
        (below n).trans (levelPrev ▸ atHeight_self hashPrev)
      have beyond := below (n + 1)
      rw [Forest.atHeight, if_neg (by omega), List.getElem?_eq_none_iff] at beyond
      have inside := (List.getElem?_eq_some_iff.mp there).1
      omega
    rw [show (map.lookup hash).bind CBlockIndex.pprev = some hashPrev from parent]
    rcases Nat.lt_trichotomy h (n + 1) with lower | top | beyond
    · rw [List.getElem?_append_left (by omega), below h]
      exact (atHeight_of_ancestor (ancestor_of_parent parent) (by omega)).symm
    · subst top
      rw [List.getElem?_append_right (by omega), length, Nat.sub_self, ← level',
        atHeight_self]
      rfl
    · rw [List.getElem?_append_right (by omega), length, Forest.atHeight, if_neg (by omega),
        List.getElem?_eq_none (by rw [length_singleton]; omega)]

end

theorem CChain.follows_iff (grounded : Grounded map) :
    chain.Follows map (some hash) ↔
      ∀ h : Nat, chain.vChain[h]? = grounded.forest.atHeight h hash := by
  simp only [Follows, bind_some, Forest.atHeight, grounded.forest_up]
  rfl

theorem CChain.Follows.linked (follows : chain.Follows map (some hash)) (grounded : Grounded map)
    (filed : hash ∈ map.filed) : chain.Linked map where
  entry {i block} here := by
    rw [follows_iff grounded] at follows
    rw [follows i] at here
    obtain ⟨lower, level⟩ := atHeight_eq_some.mp here
    obtain ⟨entry, found⟩ := grounded.filed_of_ancestor lower filed
    have low := grounded.height found
    have level' : map.heightOf block = i := level
    rw [heightOf_of_lookup found] at level'
    refine ⟨entry, found, by omega, ?_⟩
    have prevOf := pprevOf_of_lookup found
    by_cases zero : i = 0
    · rw [if_pos zero, ← prevOf]
      cases parent : map.pprevOf block with
      | none => rfl
      | some hashPrev =>
        have above := grounded.forest.above parent
        omega
    obtain ⟨hashPrev, parent⟩ := @exists_parent _ grounded.forest block (by omega)
    have above := grounded.forest.above parent
    have slot : grounded.forest.atHeight (i - 1) hash = some hashPrev :=
      atHeight_eq_some.mpr
        ⟨(ancestor_of_parent parent).trans lower, by omega⟩
    rw [if_neg zero, follows (i - 1), slot, ← prevOf]
    exact parent

/-- `SetTip` makes the branch of the new tip, whatever the chain was. -/
theorem CChain.Linked.follows_setTip (linked : chain.Linked map) (grounded : Grounded map)
    {tip : Option UInt256} (filed : ∀ hash, tip = some hash → hash ∈ map.filed) :
    (chain.setTip map tip).Follows map tip ∧ (chain.setTip map tip).Linked map := by
  cases tip with
  | none => exact ⟨fun h => rfl, .nil⟩
  | some hash =>
    obtain ⟨pindex, found⟩ := filed hash rfl
    have follows : (chain.setTip map (some hash)).Follows map (some hash) := by
      rw [follows_iff grounded, setTip, found]
      exact fun h => linked.fill_eq grounded found (heightOf_of_lookup found) h
    exact ⟨follows, follows.linked grounded ⟨pindex, found⟩⟩

/-- After any calls of `SetTip` the chain is the branch of the last tip. -/
theorem CChain.follows_foldl (grounded : Grounded map) {tips : List (Option UInt256)}
    (filed : ∀ hash, some hash ∈ tips → hash ∈ map.filed) :
    (tips.foldl (setTip map) ⟨[]⟩).Follows map tips.getLast?.join ∧
      (tips.foldl (setTip map) ⟨[]⟩).Linked map := by
  induction tips using List.reverseRecOn with
  | nil => exact ⟨fun h => rfl, .nil⟩
  | append_singleton tips tip ih =>
    obtain ⟨-, linked⟩ := ih fun hash member => filed hash (mem_append_left _ member)
    rw [foldl_append, foldl_cons, foldl_nil, List.getLast?_concat, join_some]
    refine linked.follows_setTip grounded fun hash same => filed hash ?_
    rw [← same]
    exact mem_append_right _ (mem_singleton_self _)

end Chains

/-! ## The functions -/

namespace SkipTree

variable (tree : SkipTree)

/-- The loop of `LastCommonAncestor`. -/
def meetLoop : Nat → Option UInt256 → Option UInt256 → Option (Option UInt256 × Option UInt256)
  | 0, _, _ => none
  | steps + 1, some pa, some pb =>
    if pa = pb then some (some pa, some pb)
    else meetLoop steps (tree.mapBlockIndex.pprevOf pa) (tree.mapBlockIndex.pprevOf pb)
  | _ + 1, pa, pb => some (pa, pb)

/-- `LastCommonAncestor` (`main.cpp:439-457`). It fails where a null pointer is followed, and where
its assertion does. -/
def lastCommonAncestor (pa pb : UInt256) : Option (Option UInt256) :=
  (tree.mapBlockIndex.lookup pa).bind fun a =>
    (tree.mapBlockIndex.lookup pb).bind fun b =>
      (if a.nHeight > b.nHeight then (tree.getAncestor pa b.nHeight).map fun pa => (pa, some pb)
        else if b.nHeight > a.nHeight then
          (tree.getAncestor pb a.nHeight).map fun pb => (some pa, pb)
        else some (some pa, some pb)).bind fun (first, second) =>
          (tree.meetLoop (a.nHeight.toNat + 1) first second).bind fun (first, second) =>
            if first = second then some first else none

/-- The loop of `FindFork`, with the steps that are left. -/
def forkLoop (chain : CChain) : Nat → Option UInt256 → Option (Option UInt256)
  | 0, _ => none
  | _ + 1, none => some none
  | steps + 1, some hash =>
    (tree.mapBlockIndex.lookup hash).bind fun pindex =>
      if chain.contains hash pindex then some (some hash) else forkLoop chain steps pindex.pprev

/-- `CChain::FindFork` (`chain.cpp:91-98`). -/
def findFork (chain : CChain) (hash : UInt256) : Option (Option UInt256) :=
  (tree.mapBlockIndex.lookup hash).bind fun pindex =>
    (if pindex.nHeight > chain.height then tree.getAncestor hash chain.height
      else some (some hash)).bind fun found => tree.forkLoop chain (pindex.nHeight.toNat + 2) found

/-- The loop of `CChain::GetLocator` behind `nHave` hashes: those that follow. A step that leaves `int`
comes behind the bottom, which ends the loop. -/
def locatorLoop (chain : CChain) : Nat → Option UInt256 → Nat → Nat → Option (List UInt256)
  | 0, _, _, _ => none
  | _ + 1, none, _, _ => some []
  | steps + 1, some hash, nStep, nHave =>
    (tree.mapBlockIndex.lookup hash).bind fun pindex =>
      if pindex.nHeight = 0 then some [pindex.getBlockHash]
      else
        let nHeight := max (pindex.nHeight - nStep) 0
        (if chain.contains hash pindex then some (chain.atHeight nHeight)
          else tree.getAncestor hash nHeight).bind fun next =>
            (locatorLoop chain steps next (if nHave + 1 > 10 then nStep * 2 else nStep)
              (nHave + 1)).map fun vHave => pindex.getBlockHash :: vHave

/-- `CChain::GetLocator` (`chain.cpp:62-89`). -/
def getLocator (chain : CChain) (pindex : Option UInt256) : Option (List UInt256) :=
  let start := pindex.or chain.tip
  tree.locatorLoop chain ((start.map tree.mapBlockIndex.heightOf).getD 0 + 1) start 1 0

end SkipTree

/-- `FindForkInGlobalIndex` (`main.cpp:579-591`). -/
def findForkInGlobalIndex (mapBlockIndex : BlockMap) (chain : CChain) (vHave : List UInt256) :
    Option UInt256 :=
  match vHave.find? fun hash =>
    ((mapBlockIndex.lookup hash).map fun pindex => chain.contains hash pindex).getD false with
  | some hash => some hash
  | none => chain.vChain[0]?

namespace SkipTree

section Forks

variable {tree : SkipTree} {chain own : CChain} {hash : UInt256} {pindex : CBlockIndex}

/-! ## The highest common ancestor -/

theorem Built.meetLoop_eq (built : tree.Built tree.mapBlockIndex.filed)
    (oneRoot : tree.mapBlockIndex.OneRoot) {steps : Nat} {pa pb : UInt256}
    (first : pa ∈ tree.mapBlockIndex.filed) (second : pb ∈ tree.mapBlockIndex.filed)
    (level : built.grounded.forest.height pa = built.grounded.forest.height pb)
    (enough : built.grounded.forest.height pa < steps) :
    ∃ c, tree.meetLoop steps (some pa) (some pb) = some (some c, some c) ∧
      built.grounded.forest.Meet c pa pb := by
  induction steps generalizing pa pb with
  | zero => omega
  | succ steps ih =>
    rw [meetLoop]
    by_cases same : pa = pb
    · subst same
      exact ⟨pa, by rw [if_pos rfl], .self (.refl pa)⟩
    rw [if_neg same]
    rcases Nat.eq_zero_or_pos (built.grounded.forest.height pa) with ground | positive
    · -- at height 0 there is one block only
      obtain ⟨a, foundA⟩ := first
      obtain ⟨b, foundB⟩ := second
      have root : ∀ {hash pindex}, tree.mapBlockIndex.lookup hash = some pindex →
          built.grounded.forest.height hash = 0 → pindex.pprev = none := by
        intro hash pindex found level
        rw [← pprevOf_of_lookup found]
        cases parent : tree.mapBlockIndex.pprevOf hash with
        | none => rfl
        | some hashPrev =>
          have above := built.grounded.forest.above parent
          omega
      exact absurd (oneRoot foundA foundB (root foundA ground) (root foundB (by omega))) same
    · obtain ⟨a', parent⟩ := exists_parent positive
      obtain ⟨b', parent'⟩ := exists_parent (level ▸ positive)
      have above := built.grounded.forest.above parent
      have above' := built.grounded.forest.above parent'
      obtain ⟨c, run, meet⟩ := ih (built.grounded.filed_of_pprevOf parent)
        (built.grounded.filed_of_pprevOf parent') (by omega) (by omega)
      refine ⟨c, ?_, meet.of_parents parent parent' level same⟩
      rw [show tree.mapBlockIndex.pprevOf pa = some a' from parent,
        show tree.mapBlockIndex.pprevOf pb = some b' from parent']
      exact run

theorem Built.lastCommonAncestor_eq (built : tree.Built tree.mapBlockIndex.filed)
    (oneRoot : tree.mapBlockIndex.OneRoot) {pa pb : UInt256}
    (first : pa ∈ tree.mapBlockIndex.filed) (second : pb ∈ tree.mapBlockIndex.filed) :
    ∃ c, tree.lastCommonAncestor pa pb = some (some c) ∧ built.grounded.forest.Meet c pa pb := by
  obtain ⟨a, foundA⟩ := first
  obtain ⟨b, foundB⟩ := second
  have lowA := built.grounded.height foundA
  have lowB := built.grounded.height foundB
  have levelA : built.grounded.forest.height pa = a.nHeight.toNat :=
    heightOf_of_lookup foundA
  have levelB : built.grounded.forest.height pb = b.nHeight.toNat :=
    heightOf_of_lookup foundB
  rw [lastCommonAncestor, foundA, foundB, bind_some, bind_some]
  by_cases higher : a.nHeight > b.nHeight
  · obtain ⟨a', here⟩ := @exists_atHeight _ built.grounded.forest pa b.nHeight.toNat (by omega)
    obtain ⟨lower, level⟩ := atHeight_eq_some.mp here
    obtain ⟨c, run, meet⟩ := @Built.meetLoop_eq tree built oneRoot (a.nHeight.toNat + 1) _ _
      (built.grounded.filed_of_ancestor lower ⟨a, foundA⟩) ⟨b, foundB⟩ (by omega) (by omega)
    refine ⟨c, ?_, (meet.symm.of_level lower (by omega)).symm⟩
    rw [if_pos higher, built.getAncestor_of_done ⟨a, foundA⟩ foundA, if_neg (by omega), here,
      map_some, bind_some]
    dsimp only
    rw [run, bind_some]
    exact if_pos rfl
  rw [if_neg higher]
  by_cases higher' : b.nHeight > a.nHeight
  · obtain ⟨b', here⟩ := @exists_atHeight _ built.grounded.forest pb a.nHeight.toNat (by omega)
    obtain ⟨lower, level⟩ := atHeight_eq_some.mp here
    obtain ⟨c, run, meet⟩ := @Built.meetLoop_eq tree built oneRoot (a.nHeight.toNat + 1) _ _
      ⟨a, foundA⟩ (built.grounded.filed_of_ancestor lower ⟨b, foundB⟩) (by omega) (by omega)
    refine ⟨c, ?_, meet.of_level lower (by omega)⟩
    rw [if_pos higher', built.getAncestor_of_done ⟨b, foundB⟩ foundB, if_neg (by omega), here,
      map_some, bind_some]
    dsimp only
    rw [run, bind_some]
    exact if_pos rfl
  · obtain ⟨c, run, meet⟩ := @Built.meetLoop_eq tree built oneRoot (a.nHeight.toNat + 1) _ _
      ⟨a, foundA⟩ ⟨b, foundB⟩ (by omega) (by omega)
    refine ⟨c, ?_, meet⟩
    rw [if_neg higher', bind_some]
    dsimp only
    rw [run, bind_some]
    exact if_pos rfl

/-! ## The fork with a chain -/

/-- The highest block of the chain below a block. -/
structure Fork (forest : Forest UInt256) (chain : CChain) (hash fork : UInt256) : Prop where
  onChain : fork ∈ chain.vChain
  lower : forest.Ancestor fork hash
  highest : ∀ d ∈ chain.vChain, forest.Ancestor d hash → forest.Ancestor d fork

section

variable (built : tree.Built tree.mapBlockIndex.filed)
include built

theorem Built.forkLoop_eq (linked : chain.Linked tree.mapBlockIndex) {root : UInt256}
    (onChain : root ∈ chain.vChain) {steps : Nat} (filed : hash ∈ tree.mapBlockIndex.filed)
    (above : built.grounded.forest.Ancestor root hash)
    (enough : built.grounded.forest.height hash < steps) :
    ∃ fork, tree.forkLoop chain steps (some hash) = some (some fork) ∧
      Fork built.grounded.forest chain hash fork := by
  induction steps generalizing hash with
  | zero => omega
  | succ steps ih =>
    obtain ⟨pindex, found⟩ := filed
    rw [forkLoop, found, bind_some]
    by_cases here : hash ∈ chain.vChain
    · refine ⟨hash, ?_, here, .refl hash, fun _ _ lower => lower⟩
      rw [if_pos ((linked.contains_iff built.grounded found).mpr here)]
    have other : root ≠ hash := by
      rintro rfl
      exact here onChain
    obtain ⟨hashPrev, parent, above⟩ := above.below_parent other
    have falls := built.grounded.forest.above parent
    obtain ⟨fork, run, onChain', lower, highest⟩ :=
      ih (built.grounded.filed_of_pprevOf parent) above (by omega)
    refine ⟨fork, ?_, onChain', lower.trans (ancestor_of_parent parent), ?_⟩
    · rw [if_neg fun contained => here ((linked.contains_iff built.grounded found).mp contained),
        ← pprevOf_of_lookup found, show tree.mapBlockIndex.pprevOf hash = _ from parent]
      exact run
    intro d member lowerD
    have otherD : d ≠ hash := by
      rintro rfl
      exact here member
    obtain ⟨hashPrev', parent', lowerD⟩ := lowerD.below_parent otherD
    obtain rfl := Option.some.inj (parent.symm.trans parent')
    exact highest d member lowerD

/-- The block at the bottom is on every chain that is not empty. -/
theorem Built.exists_root (oneRoot : tree.mapBlockIndex.OneRoot)
    (linked : chain.Linked tree.mapBlockIndex) (nonempty : chain.vChain ≠ [])
    (filed : hash ∈ tree.mapBlockIndex.filed) :
    ∃ root ∈ chain.vChain, chain.vChain[0]? = some root ∧
      built.grounded.forest.Ancestor root hash := by
  obtain ⟨root, here⟩ : ∃ root, chain.vChain[0]? = some root :=
    ⟨_, List.getElem?_eq_getElem (length_pos_iff.mpr nonempty)⟩
  obtain ⟨first, foundFirst, -, prev⟩ := linked.entry here
  obtain ⟨bottom, lower, ground⟩ := @Forest.exists_root _ built.grounded.forest hash
  obtain ⟨last, foundLast⟩ := built.grounded.filed_of_ancestor lower filed
  have rootless : last.pprev = none := by
    rw [← pprevOf_of_lookup foundLast]
    cases parent : tree.mapBlockIndex.pprevOf bottom with
    | none => rfl
    | some hashPrev =>
      have above := built.grounded.forest.above parent
      omega
  obtain rfl := oneRoot foundFirst foundLast prev rootless
  exact ⟨root, mem_of_getElem? here, here, lower⟩

/-- `FindFork` returns the highest block of the chain below the block. -/
theorem Built.findFork_eq (oneRoot : tree.mapBlockIndex.OneRoot)
    (linked : chain.Linked tree.mapBlockIndex) (nonempty : chain.vChain ≠ [])
    (filed : hash ∈ tree.mapBlockIndex.filed) :
    ∃ fork, tree.findFork chain hash = some (some fork) ∧
      Fork built.grounded.forest chain hash fork := by
  obtain ⟨root, onChain, -, above⟩ := built.exists_root oneRoot linked nonempty filed
  obtain ⟨pindex, found⟩ := filed
  have level : built.grounded.forest.height hash = pindex.nHeight.toNat :=
    heightOf_of_lookup found
  have length := length_pos_iff.mpr nonempty
  rw [findFork, found, bind_some]
  by_cases higher : pindex.nHeight > chain.height
  · -- nothing above the chain is on it
    have top : chain.height = (chain.vChain.length : Int) - 1 := rfl
    obtain ⟨start, here⟩ := @exists_atHeight _ built.grounded.forest hash
      chain.height.toNat (by omega)
    obtain ⟨lower, levelStart⟩ := atHeight_eq_some.mp here
    have within : ∀ d ∈ chain.vChain, built.grounded.forest.height d ≤ chain.height.toNat := by
      intro d member
      obtain ⟨i, slot⟩ := List.getElem?_of_mem member
      obtain ⟨entry, foundD, heightD, -⟩ := linked.entry slot
      have inside := (List.getElem?_eq_some_iff.mp slot).1
      have levelD : built.grounded.forest.height d = entry.nHeight.toNat :=
        heightOf_of_lookup foundD
      omega
    obtain ⟨fork, run, onChain', lower', highest⟩ :=
      @Built.forkLoop_eq tree chain start built linked root onChain (pindex.nHeight.toNat + 2)
        (built.grounded.filed_of_ancestor lower ⟨pindex, found⟩)
        (above.of_le lower (by rw [levelStart]; exact within root onChain)) (by omega)
    refine ⟨fork, ?_, onChain', lower'.trans lower, fun d member lowerD => ?_⟩
    · rw [if_pos higher, built.getAncestor_of_done ⟨pindex, found⟩ found, if_neg (by omega), here,
        bind_some]
      exact run
    · exact highest d member (lowerD.of_le lower (by rw [levelStart]; exact within d member))
  · obtain ⟨fork, run, isFork⟩ :=
      @Built.forkLoop_eq tree chain hash built linked root onChain (pindex.nHeight.toNat + 2)
        ⟨pindex, found⟩ above (by omega)
    refine ⟨fork, ?_, isFork⟩
    rw [if_neg higher, bind_some]
    exact run

theorem Built.findFork_empty (filed : hash ∈ tree.mapBlockIndex.filed) :
    tree.findFork ⟨[]⟩ hash = some none := by
  obtain ⟨pindex, found⟩ := filed
  have low := built.grounded.height found
  have bottom : CChain.height ⟨[]⟩ = -1 := rfl
  rw [findFork, found, bind_some, if_pos (by omega),
    built.getAncestor_of_done ⟨pindex, found⟩ found, if_pos (by omega), bind_some, forkLoop]

/-! ## Locators -/

section

variable (linked : own.Linked tree.mapBlockIndex)
include linked

/-- A step of the locator's loop goes down the branch, by whichever index. -/
theorem Built.locatorLoop_succ (filed : hash ∈ tree.mapBlockIndex.filed)
    (positive : 0 < built.grounded.forest.height hash) (steps nStep nHave : Nat) :
    ∃ next, built.grounded.forest.Ancestor next hash ∧
      built.grounded.forest.height next = built.grounded.forest.height hash - nStep ∧
      tree.locatorLoop own (steps + 1) (some hash) nStep nHave =
        (tree.locatorLoop own steps (some next) (if nHave + 1 > 10 then nStep * 2 else nStep)
          (nHave + 1)).map fun vHave => hash :: vHave := by
  obtain ⟨pindex, found⟩ := filed
  have level : built.grounded.forest.height hash = pindex.nHeight.toNat :=
    heightOf_of_lookup found
  have own_hash : pindex.getBlockHash = hash := by
    rw [CBlockIndex.getBlockHash, built.grounded.wellFormed.filed found, getD_some]
  have target : (max (pindex.nHeight - nStep) 0).toNat = built.grounded.forest.height hash - nStep := by
    omega
  obtain ⟨next, here⟩ := @exists_atHeight _ built.grounded.forest hash
    (built.grounded.forest.height hash - nStep) (Nat.sub_le _ _)
  obtain ⟨lower, levelNext⟩ := atHeight_eq_some.mp here
  refine ⟨next, lower, levelNext, ?_⟩
  rw [locatorLoop, found, bind_some, if_neg (by omega), own_hash]
  dsimp only
  by_cases contained : own.contains hash pindex = true
  · have member := (linked.contains_iff built.grounded found).mp contained
    have slot := (linked.mem_iff found).mp member
    have jump := linked.atHeight_eq built.grounded slot
      (Nat.sub_le (built.grounded.forest.height hash) nStep)
    rw [if_pos contained, bind_some, CChain.atHeight, if_neg (by omega), target, jump, here]
  · rw [if_neg contained, built.getAncestor_of_done ⟨pindex, found⟩ found, if_neg (by omega), target, here,
      bind_some]

theorem Built.locatorLoop_total {steps nStep nHave : Nat} (filed : hash ∈ tree.mapBlockIndex.filed)
    (forward : 0 < nStep) (enough : built.grounded.forest.height hash < steps) :
    ∃ rest, tree.locatorLoop own steps (some hash) nStep nHave = some (hash :: rest) := by
  induction steps generalizing hash nStep nHave with
  | zero => omega
  | succ steps ih =>
    rcases Nat.eq_zero_or_pos (built.grounded.forest.height hash) with ground | positive
    · obtain ⟨pindex, found⟩ := filed
      have low := built.grounded.height found
      have level : built.grounded.forest.height hash = pindex.nHeight.toNat :=
        heightOf_of_lookup found
      refine ⟨[], ?_⟩
      rw [locatorLoop, found, bind_some, if_pos (by omega), CBlockIndex.getBlockHash,
        built.grounded.wellFormed.filed found, getD_some]
    · obtain ⟨next, lower, level, step⟩ :=
        built.locatorLoop_succ linked filed positive steps nStep nHave
      obtain ⟨rest, run⟩ := @ih next (if nHave + 1 > 10 then nStep * 2 else nStep) (nHave + 1)
        (built.grounded.filed_of_ancestor lower filed) (by split <;> omega) (by omega)
      exact ⟨next :: rest, by rw [step, run, map_some]⟩

/-- What a locator leads to, in the index and on the chain of whoever reads it. -/
theorem Built.find_locatorLoop (linked' : chain.Linked tree.mapBlockIndex) {p fork : UInt256}
    (isFork : Fork built.grounded.forest chain p fork) (filed : p ∈ tree.mapBlockIndex.filed)
    {steps nStep nHave : Nat} (lower : built.grounded.forest.Ancestor hash p) (forward : 0 < nStep)
    (short : 0 < built.grounded.forest.height hash → nStep ≤
      built.grounded.forest.height p - built.grounded.forest.height hash + 2)
    (deep : built.grounded.forest.height p - built.grounded.forest.height hash ≤
      2 * (built.grounded.forest.height p - built.grounded.forest.height fork))
    (enough : built.grounded.forest.height hash < steps) :
    ∃ vHave found, tree.locatorLoop own steps (some hash) nStep nHave = some vHave ∧
      findForkInGlobalIndex tree.mapBlockIndex chain vHave = some found ∧ found ∈ chain.vChain ∧
      built.grounded.forest.Ancestor found p ∧
      built.grounded.forest.height p - built.grounded.forest.height found ≤
        2 * (built.grounded.forest.height p - built.grounded.forest.height fork) := by
  induction steps generalizing hash nStep nHave with
  | zero => omega
  | succ steps ih =>
    have filedHash := built.grounded.filed_of_ancestor lower filed
    obtain ⟨pindex, found⟩ := filedHash
    have contained := linked'.contains_iff built.grounded found
    obtain ⟨rest, whole⟩ := @Built.locatorLoop_total tree own hash built linked (steps + 1) nStep nHave
      ⟨pindex, found⟩ forward enough
    by_cases here : hash ∈ chain.vChain
    · -- the first hash on the chain
      refine ⟨hash :: rest, hash, whole, ?_, here, lower, deep⟩
      rw [findForkInGlobalIndex, List.find?_cons_of_pos]
      rw [found, map_some, getD_some]
      exact contained.mpr here
    have forkLe := isFork.lower.height_le
    have above : built.grounded.forest.height fork < built.grounded.forest.height hash := by
      by_contra below
      have onFork := lower.of_le isFork.lower (Nat.le_of_not_lt below)
      exact here (linked'.mem_of_ancestor built.grounded isFork.onChain onFork)
    obtain ⟨next, lowerNext, level, step⟩ :=
      built.locatorLoop_succ linked ⟨pindex, found⟩ (by omega) steps nStep nHave
    have within := lower.height_le
    obtain ⟨vHave, result, run, find, onChain, lowerResult, bound⟩ :=
      @ih next (if nHave + 1 > 10 then nStep * 2 else nStep) (nHave + 1) (lowerNext.trans lower)
        (by split <;> omega) (fun _ => by split <;> omega) (by omega) (by omega)
    refine ⟨hash :: vHave, result, by rw [step, run, map_some], ?_, onChain, lowerResult,
      bound⟩
    rw [findForkInGlobalIndex, List.find?_cons_of_neg]
    · exact find
    · rw [found, map_some, getD_some]
      exact fun yes => here (contained.mp yes)

/-- The block found by a locator is at most twice as deep as the fork. -/
theorem Built.locator_finds (linked' : chain.Linked tree.mapBlockIndex) {p fork : UInt256}
    (isFork : Fork built.grounded.forest chain p fork) (filed : p ∈ tree.mapBlockIndex.filed) :
    ∃ vHave found, tree.getLocator own (some p) = some vHave ∧
      findForkInGlobalIndex tree.mapBlockIndex chain vHave = some found ∧ found ∈ chain.vChain ∧
      built.grounded.forest.Ancestor found p ∧
      built.grounded.forest.height p - built.grounded.forest.height found ≤
        2 * (built.grounded.forest.height p - built.grounded.forest.height fork) :=
  built.find_locatorLoop linked linked' isFork filed (.refl p) Nat.one_pos (fun _ => by omega) (by omega)
    (Nat.lt_succ_self _)

end

end

end Forks

/-- The active chain is the branch of its tip; `FindFork` and `LastCommonAncestor` find the highest
common blocks, and what a locator finds is at most twice as deep as the fork. -/
theorem forks_found {tree : SkipTree} (reached : tree.Reached)
    (oneRoot : tree.mapBlockIndex.OneRoot) {tips : List (Option UInt256)}
    (filed : ∀ hash, some hash ∈ tips → hash ∈ tree.mapBlockIndex.filed) (chain : CChain)
    (run : chain = tips.foldl (CChain.setTip tree.mapBlockIndex) ⟨[]⟩) :
    chain.Follows tree.mapBlockIndex tips.getLast?.join ∧
    (∀ pa ∈ tree.mapBlockIndex.filed, ∀ pb ∈ tree.mapBlockIndex.filed, ∃ c,
      tree.lastCommonAncestor pa pb = some (some c) ∧ tree.mapBlockIndex.AncestorOf c pa ∧
        tree.mapBlockIndex.AncestorOf c pb ∧ ∀ d, tree.mapBlockIndex.AncestorOf d pa →
          tree.mapBlockIndex.AncestorOf d pb → tree.mapBlockIndex.AncestorOf d c) ∧
    ∀ p ∈ tree.mapBlockIndex.filed,
      (chain.vChain = [] → tree.findFork chain p = some none) ∧
      (chain.vChain ≠ [] → ∃ fork, tree.findFork chain p = some (some fork) ∧
        fork ∈ chain.vChain ∧ tree.mapBlockIndex.AncestorOf fork p ∧
        (∀ d ∈ chain.vChain, tree.mapBlockIndex.AncestorOf d p →
          tree.mapBlockIndex.AncestorOf d fork) ∧
        ∃ vHave found, tree.getLocator chain (some p) = some vHave ∧
          findForkInGlobalIndex tree.mapBlockIndex chain vHave = some found ∧
          found ∈ chain.vChain ∧ tree.mapBlockIndex.AncestorOf found p ∧
          tree.mapBlockIndex.heightOf p - tree.mapBlockIndex.heightOf found ≤
            2 * (tree.mapBlockIndex.heightOf p - tree.mapBlockIndex.heightOf fork)) := by
  have built := reached.built
  obtain ⟨follows, linked⟩ := CChain.follows_foldl built.grounded filed
  rw [← run] at follows linked
  simp only [← built.grounded.ancestor_iff]
  refine ⟨follows, fun pa first pb second => ?_, fun p member => ⟨fun empty => ?_, fun nonempty => ?_⟩⟩
  · obtain ⟨c, result, meet⟩ := built.lastCommonAncestor_eq oneRoot first second
    exact ⟨c, result, meet.left, meet.right, meet.highest⟩
  · obtain ⟨vChain⟩ := chain
    obtain rfl : vChain = [] := empty
    exact built.findFork_empty member
  · obtain ⟨fork, result, isFork⟩ := built.findFork_eq oneRoot linked nonempty member
    exact ⟨fork, result, isFork.onChain, isFork.lower, isFork.highest,
      built.locator_finds linked linked isFork member⟩

theorem oneRoot_sampleTree : sampleTree.mapBlockIndex.OneRoot := by
  intro root root' pindex pindex' found found' prev prev'
  have entries : ∀ {hash e}, sampleTree.mapBlockIndex.lookup hash = some e → e.pprev = none →
      hash = 1 := by
    intro hash e found prev
    have member := AList.mem_lookup_iff.mp (mem_def.mpr found)
    have all : ∀ entry ∈ sampleTree.mapBlockIndex.entries, entry.2.pprev = none → entry.1 = 1 := by
      decide
    exact all _ member prev
  rw [entries found prev, entries found' prev']

theorem forks_found_sample :
    sampleTree.Reached ∧ sampleTree.mapBlockIndex.OneRoot ∧
      CChain.Follows ⟨[1, 2, 3]⟩ sampleTree.mapBlockIndex (some 3) := by
  refine ⟨reached_sampleTree, oneRoot_sampleTree, ?_⟩
  refine (@forks_found sampleTree reached_sampleTree oneRoot_sampleTree [some 3] ?_ ⟨[1, 2, 3]⟩ ?_).1
  · intro hash member
    obtain rfl := Option.some.inj (mem_singleton.mp member)
    exact ⟨_, rfl⟩
  · rfl

end SkipTree

end Esbcoin
