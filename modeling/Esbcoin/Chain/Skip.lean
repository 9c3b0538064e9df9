import Esbcoin.Chain.ModifierRuns
import Esbcoin.Lib.Forest
import Mathlib.Data.Set.Insert

/-!
# Skip pointers

Rendering of `GetSkipHeight`, `CBlockIndex::GetAncestor` and `CBlockIndex::BuildSkip`
(`src/main.cpp:3597-3644`). The pointers `pskip` are kept beside the entries. A tree is built by
`AddToBlockIndex` (`main.cpp:2977-3030`) and again by `LoadBlockIndexDB` (`main.cpp:3860-3900`).
-/

namespace Esbcoin

open Forest List

/-- `InvertLowestOne` (`main.cpp:3598`). -/
def invertLowestOne (n : Nat) : Nat := n &&& (n - 1)

/-- `GetSkipHeight` (`main.cpp:3601-3610`). -/
def getSkipHeight (height : Nat) : Nat :=
  if height < 2 then 0
  else if height &&& 1 ≠ 0 then invertLowestOne (invertLowestOne (height - 1)) + 1
  else invertLowestOne height

theorem invertLowestOne_lt {n : Nat} (positive : 0 < n) : invertLowestOne n < n := by
  have below : n &&& (n - 1) ≤ n - 1 := Nat.and_le_right
  rw [invertLowestOne]
  omega

/-- Every skip goes down. -/
theorem getSkipHeight_lt {height : Nat} (positive : 0 < height) : getSkipHeight height < height := by
  unfold getSkipHeight
  split
  · exact positive
  have first := invertLowestOne_lt (show 0 < height - 1 by omega)
  have second : invertLowestOne (invertLowestOne (height - 1)) ≤ invertLowestOne (height - 1) :=
    Nat.and_le_left
  have even := invertLowestOne_lt positive
  split
  · omega
  · exact even

namespace BlockMap

variable (mapBlockIndex : BlockMap)

/-- `pprev` of an entry. -/
def pprevOf (hash : UInt256) : Option UInt256 :=
  (mapBlockIndex.lookup hash).bind CBlockIndex.pprev

/-- `nHeight` of an entry. -/
def heightOf (hash : UInt256) : Nat :=
  ((mapBlockIndex.lookup hash).map fun pindex => pindex.nHeight.toNat).getD 0

/-- Follow `pprev` so many times. -/
def pprevTimes : Nat → UInt256 → Option UInt256
  | 0, hash => some hash
  | n + 1, hash => (mapBlockIndex.pprevOf hash).bind (pprevTimes n)

/-- The hashes of entries. -/
def filed : Set UInt256 := {hash | ∃ pindex, mapBlockIndex.lookup hash = some pindex}

variable {mapBlockIndex} {hash hashPrev : UInt256} {pindex : CBlockIndex}

theorem heightOf_of_lookup (found : mapBlockIndex.lookup hash = some pindex) :
    mapBlockIndex.heightOf hash = pindex.nHeight.toNat := by
  rw [heightOf, found]
  rfl

theorem pprevOf_of_lookup (found : mapBlockIndex.lookup hash = some pindex) :
    mapBlockIndex.pprevOf hash = pindex.pprev := by
  rw [pprevOf, found]
  rfl

theorem exists_of_pprevOf (prev : mapBlockIndex.pprevOf hash = some hashPrev) :
    ∃ pindex, mapBlockIndex.lookup hash = some pindex ∧ pindex.pprev = some hashPrev :=
  Option.bind_eq_some_iff.mp prev

end BlockMap

/-- The entries of an index as a forest. -/
def Grounded.forest {map : BlockMap} (grounded : Grounded map) : Forest UInt256 where
  parent := map.pprevOf
  height := map.heightOf
  above {hash hashPrev} prev := by
    obtain ⟨e, found, parent⟩ := BlockMap.exists_of_pprevOf prev
    obtain ⟨p, foundPrev, height⟩ := grounded.wellFormed.parent found parent
    have low := grounded.height foundPrev
    rw [BlockMap.heightOf_of_lookup found, BlockMap.heightOf_of_lookup foundPrev]
    omega
  root {hash} prev := by
    cases found : map.lookup hash with
    | none =>
      rw [BlockMap.heightOf, found]
      rfl
    | some e =>
      rw [BlockMap.pprevOf_of_lookup found] at prev
      rw [BlockMap.heightOf_of_lookup found, grounded.wellFormed.root found prev]
      rfl

namespace Grounded

variable {map : BlockMap} {hash hashPrev : UInt256}

theorem forest_up (grounded : Grounded map) (n : Nat) (hash : UInt256) :
    grounded.forest.up n hash = map.pprevTimes n hash := by
  induction n generalizing hash with
  | zero => rfl
  | succ n ih =>
    rw [Forest.up, BlockMap.pprevTimes, funext ih]
    rfl

theorem filed_of_pprevOf (grounded : Grounded map) (prev : map.pprevOf hash = some hashPrev) :
    hashPrev ∈ map.filed := by
  obtain ⟨e, found, parent⟩ := BlockMap.exists_of_pprevOf prev
  obtain ⟨p, foundPrev, -⟩ := grounded.wellFormed.parent found parent
  exact ⟨p, foundPrev⟩

theorem filed_of_ancestor (grounded : Grounded map) {ancestor : UInt256}
    (lower : grounded.forest.Ancestor ancestor hash) (filed : hash ∈ map.filed) : ancestor ∈ map.filed := by
  obtain ⟨n, here⟩ := lower
  cases n with
  | zero =>
    obtain rfl := Option.some.inj here
    exact filed
  | succ n =>
    rw [up_succ] at here
    obtain ⟨child, -, parent⟩ := Option.bind_eq_some_iff.mp here
    exact grounded.filed_of_pprevOf parent

end Grounded

/-! ## The walk -/

/-- A block index with its skip pointers. -/
structure SkipTree where
  mapBlockIndex : BlockMap
  /-- `CBlockIndex::pskip`, where it is not null. -/
  pskip : AssocMap UInt256 UInt256 := ∅

namespace SkipTree

/-- The loop of `CBlockIndex::GetAncestor`. It fails where a null pointer is followed, and where the
steps do not suffice. -/
def walk (tree : SkipTree) (height : Nat) : Nat → Option UInt256 → Nat → Option (Option UInt256)
  | 0, _, _ => none
  | steps + 1, pindexWalk, heightWalk =>
    if heightWalk ≤ height then some pindexWalk
    else
      match pindexWalk with
      | none => none
      | some hash =>
        let heightSkip := getSkipHeight heightWalk
        let heightSkipPrev := getSkipHeight (heightWalk - 1)
        if heightSkip = height ∨
            (height < heightSkip ∧ ¬(heightSkipPrev + 2 < heightSkip ∧ height ≤ heightSkipPrev)) then
          walk tree height steps (tree.pskip.lookup hash) heightSkip
        else walk tree height steps (tree.mapBlockIndex.pprevOf hash) (heightWalk - 1)

/-- `CBlockIndex::GetAncestor` (`main.cpp:3612-3633`) of the entry under `hash`: a pointer, which is
null for a height that is out of range. -/
def getAncestor (tree : SkipTree) (hash : UInt256) (height : Int) : Option (Option UInt256) :=
  match tree.mapBlockIndex.lookup hash with
  | none => none
  | some pindex =>
    if height > pindex.nHeight ∨ height < 0 then some none
    else
      walk tree height.toNat (pindex.nHeight.toNat + 1) (some hash) pindex.nHeight.toNat

/-- `CBlockIndex::BuildSkip` (`main.cpp:3640-3644`) of the entry under `hash`. -/
def buildSkip (tree : SkipTree) (hash : UInt256) : SkipTree :=
  match tree.mapBlockIndex.lookup hash with
  | none => tree
  | some pindex =>
    match pindex.pprev with
    | none => tree
    | some hashPrev =>
      match tree.getAncestor hashPrev (getSkipHeight pindex.nHeight.toNat) with
      | some (some skip) => { tree with pskip := tree.pskip.insert hash skip }
      | _ => { tree with pskip := tree.pskip.erase hash }

/-- The blocks of a set have their skip pointers, and so have the blocks below them. -/
structure Built (tree : SkipTree) (done : Set UInt256) : Prop where
  grounded : Grounded tree.mapBlockIndex
  closed : ∀ {hash hashPrev}, hash ∈ done → tree.mapBlockIndex.pprevOf hash = some hashPrev →
    hashPrev ∈ done
  skip : ∀ {hash}, hash ∈ done → 0 < tree.mapBlockIndex.heightOf hash →
    tree.pskip.lookup hash =
      grounded.forest.atHeight (getSkipHeight (tree.mapBlockIndex.heightOf hash)) hash

section Walk

variable {tree : SkipTree} {done : Set UInt256} {hash : UInt256} {pindex : CBlockIndex}

theorem Built.of_ancestor (built : tree.Built done) {ancestor : UInt256}
    (lower : built.grounded.forest.Ancestor ancestor hash) (member : hash ∈ done) :
    ancestor ∈ done := by
  obtain ⟨n, here⟩ := lower
  induction n generalizing hash with
  | zero =>
    obtain rfl := Option.some.inj here
    exact member
  | succ n ih =>
    obtain ⟨hashPrev, prev, rest⟩ := Option.bind_eq_some_iff.mp here
    exact ih (built.closed member prev) rest

/-- Whichever pointers it follows, the walk stays on the ancestors and keeps their height. -/
theorem Built.walk_eq (built : tree.Built done) {height steps : Nat} (member : hash ∈ done)
    (reached : height ≤ tree.mapBlockIndex.heightOf hash)
    (enough : tree.mapBlockIndex.heightOf hash < height + steps) :
    tree.walk height steps (some hash) (tree.mapBlockIndex.heightOf hash) =
      some (built.grounded.forest.atHeight height hash) := by
  induction steps generalizing hash with
  | zero => omega
  | succ steps ih =>
    rw [walk]
    by_cases there : tree.mapBlockIndex.heightOf hash ≤ height
    · have level : height = built.grounded.forest.height hash := Nat.le_antisymm reached there
      rw [if_pos there, level, atHeight_self]
    rw [if_neg there]
    -- wherever the pointer leads, it is an ancestor that is lower, and not below the height
    have go : ∀ lower : UInt256, built.grounded.forest.Ancestor lower hash →
        height ≤ tree.mapBlockIndex.heightOf lower →
        tree.mapBlockIndex.heightOf lower < tree.mapBlockIndex.heightOf hash →
        tree.walk height steps (some lower) (tree.mapBlockIndex.heightOf lower) =
          some (built.grounded.forest.atHeight height hash) := by
      intro lower ancestor above below
      rw [ih (built.of_ancestor ancestor member) above (by omega)]
      exact congrArg some (atHeight_of_ancestor ancestor above).symm
    have positive : 0 < tree.mapBlockIndex.heightOf hash := by omega
    have falls := getSkipHeight_lt positive
    dsimp only
    split
    · rename_i follow
      obtain ⟨skip, here⟩ := @exists_atHeight _ built.grounded.forest hash _
        (Nat.le_of_lt falls)
      obtain ⟨ancestor, level⟩ := atHeight_eq_some.mp here
      have level : tree.mapBlockIndex.heightOf skip =
        getSkipHeight (tree.mapBlockIndex.heightOf hash) := level
      rw [built.skip member positive, here, ← level]
      exact go skip ancestor (by omega) (by omega)
    · obtain ⟨hashPrev, prev⟩ := @exists_parent _ built.grounded.forest hash positive
      have level : tree.mapBlockIndex.heightOf hash = tree.mapBlockIndex.heightOf hashPrev + 1 :=
        built.grounded.forest.above prev
      have prev : tree.mapBlockIndex.pprevOf hash = some hashPrev := prev
      rw [prev, show tree.mapBlockIndex.heightOf hash - 1 = tree.mapBlockIndex.heightOf hashPrev by
        omega]
      exact go hashPrev (ancestor_of_parent prev) (by omega) (by omega)

/-- What `GetAncestor` returns for a block of the set. -/
theorem Built.getAncestor_of_done (built : tree.Built done) (member : hash ∈ done)
    (found : tree.mapBlockIndex.lookup hash = some pindex) (height : Int) :
    tree.getAncestor hash height =
      some (if height < 0 then none else built.grounded.forest.atHeight height.toNat hash) := by
  have low := built.grounded.height found
  have level := BlockMap.heightOf_of_lookup found
  rw [getAncestor, found]
  dsimp only
  by_cases outside : height > pindex.nHeight ∨ height < 0
  · rw [if_pos outside]
    by_cases negative : height < 0
    · rw [if_pos negative]
    have above : ¬height.toNat ≤ built.grounded.forest.height hash := by
      show ¬height.toNat ≤ tree.mapBlockIndex.heightOf hash
      omega
    rw [if_neg negative, Forest.atHeight, if_neg above]
  · rw [if_neg outside, if_neg (by omega), ← level, built.walk_eq member (by omega) (by omega)]

end Walk

/-! ## The trees of a node -/

/-- The links that `AddToBlockIndex` makes (`main.cpp:2977-3030`) of a block that is not the parent of
itself; what else the entry holds is given. -/
def addToBlockIndex (tree : SkipTree) (hash hashPrevBlock : UInt256) (pindexNew : CBlockIndex) :
    SkipTree :=
  match tree.mapBlockIndex.lookup hash with
  | some _ => tree
  | none =>
    match tree.mapBlockIndex.lookup hashPrevBlock with
    | some pprev =>
      buildSkip
        { tree with
          mapBlockIndex := tree.mapBlockIndex.insert hash
            { pindexNew with
              phashBlock := some hash, pprev := some hashPrevBlock, nHeight := pprev.nHeight + 1 } }
        hash
    | none =>
      { tree with
        mapBlockIndex := tree.mapBlockIndex.insert hash
          { pindexNew with phashBlock := some hash, pprev := none, nHeight := 0 } }

/-- The trees that a node builds. Entries change in other fields all the time. -/
inductive Reached : SkipTree → Prop
  | empty : Reached ⟨∅, ∅⟩
  | add {tree : SkipTree} (hash hashPrevBlock : UInt256) (pindexNew : CBlockIndex) :
    Reached tree → Reached (tree.addToBlockIndex hash hashPrevBlock pindexNew)
  | update {tree : SkipTree} {map : BlockMap} :
    Reached tree → tree.mapBlockIndex.SameTree map → Reached ⟨map, tree.pskip⟩
  /-- `LoadBlockIndexDB` (`main.cpp:3867-3900`), over `vSortedByHeight`. -/
  | load {map : BlockMap} {vSortedByHeight : List UInt256} :
    Grounded map → (∀ hash, hash ∈ vSortedByHeight ↔ hash ∈ map.filed) → vSortedByHeight.Nodup →
    vSortedByHeight.Pairwise (fun first second => map.heightOf first ≤ map.heightOf second) →
    Reached (vSortedByHeight.foldl buildSkip ⟨map, ∅⟩)

section Build

variable {tree : SkipTree} {done : Set UInt256} {hash : UInt256} {pindex : CBlockIndex}

/-- The pointers are right in any index that shows the same of the blocks of the set. -/
theorem Built.congr (built : tree.Built done) {map : BlockMap} (grounded : Grounded map)
    (parents : ∀ hash ∈ done, map.pprevOf hash = tree.mapBlockIndex.pprevOf hash)
    (heights : ∀ hash ∈ done, map.heightOf hash = tree.mapBlockIndex.heightOf hash) :
    Built ⟨map, tree.pskip⟩ done := by
  have up : ∀ n, ∀ hash ∈ done, grounded.forest.up n hash = built.grounded.forest.up n hash := by
    intro n
    induction n with
    | zero => exact fun _ _ => rfl
    | succ n ih =>
      intro hash member
      show (map.pprevOf hash).bind _ = (tree.mapBlockIndex.pprevOf hash).bind _
      rw [parents hash member]
      cases prev : tree.mapBlockIndex.pprevOf hash with
      | none => rfl
      | some hashPrev => exact ih hashPrev (built.closed member prev)
  refine ⟨grounded, fun {hash hashPrev} member prev => ?_, fun {hash} member positive => ?_⟩
  · rw [parents hash member] at prev
    exact built.closed member prev
  have level : grounded.forest.height hash = built.grounded.forest.height hash :=
    heights hash member
  have positive : 0 < map.heightOf hash := positive
  rw [heights hash member] at positive ⊢
  rw [built.skip member positive, Forest.atHeight, Forest.atHeight, level, up _ hash member]

/-- `BuildSkip` gives a block its pointer, if the block below has its own. -/
theorem Built.buildSkip (built : tree.Built done) (found : tree.mapBlockIndex.lookup hash = some pindex)
    (known : ∀ hashPrev, pindex.pprev = some hashPrev → hashPrev ∈ done) (fresh : hash ∉ done) :
    (tree.buildSkip hash).mapBlockIndex = tree.mapBlockIndex ∧
      (tree.buildSkip hash).Built (insert hash done) := by
  have prevOf := BlockMap.pprevOf_of_lookup found
  have closed : ∀ {child hashPrev}, child ∈ insert hash done →
      tree.mapBlockIndex.pprevOf child = some hashPrev → hashPrev ∈ insert hash done := by
    rintro child hashPrev (rfl | member) prev
    · exact Or.inr (known hashPrev (prevOf.symm.trans prev))
    · exact Or.inr (built.closed member prev)
  rw [SkipTree.buildSkip, found]
  dsimp only
  cases prev : pindex.pprev with
  | none =>
    have ground : tree.mapBlockIndex.heightOf hash = 0 :=
      built.grounded.forest.root (prevOf.trans prev)
    dsimp only
    refine ⟨rfl, built.grounded, closed, ?_⟩
    rintro child (rfl | member) positive
    · omega
    · exact built.skip member positive
  | some hashPrev =>
    have parent : built.grounded.forest.parent hash = some hashPrev := prevOf.trans prev
    have level : tree.mapBlockIndex.heightOf hash = tree.mapBlockIndex.heightOf hashPrev + 1 :=
      built.grounded.forest.above parent
    have below := getSkipHeight_lt (show 0 < tree.mapBlockIndex.heightOf hash by omega)
    obtain ⟨p, foundPrev⟩ := built.grounded.filed_of_pprevOf (prevOf.trans prev)
    obtain ⟨skip, here⟩ := @exists_atHeight _ built.grounded.forest hashPrev
      (getSkipHeight (tree.mapBlockIndex.heightOf hash))
      (show _ ≤ tree.mapBlockIndex.heightOf hashPrev by omega)
    dsimp only
    rw [built.getAncestor_of_done (known hashPrev prev) foundPrev, if_neg (by omega), Int.toNat_natCast,
      ← BlockMap.heightOf_of_lookup found, here]
    refine ⟨rfl, built.grounded, closed, ?_⟩
    rintro child member positive
    rcases member with rfl | member
    · rw [AList.lookup_insert]
      refine (here.symm.trans ?_)
      exact (atHeight_of_ancestor (ancestor_of_parent parent)
        (show _ ≤ tree.mapBlockIndex.heightOf hashPrev by omega)).symm
    have other : child ≠ hash := by
      rintro rfl
      exact fresh member
    rw [AList.lookup_insert_ne other]
    exact built.skip member positive

/-- A block that comes in leaves the others as they are. -/
theorem Built.insert (built : tree.Built tree.mapBlockIndex.filed)
    (fresh : tree.mapBlockIndex.lookup hash = none)
    (grounded : Grounded (tree.mapBlockIndex.insert hash pindex)) :
    Built ⟨tree.mapBlockIndex.insert hash pindex, tree.pskip⟩ tree.mapBlockIndex.filed := by
  have kept : ∀ child ∈ tree.mapBlockIndex.filed,
      AList.lookup child (tree.mapBlockIndex.insert hash pindex) =
        tree.mapBlockIndex.lookup child := by
    rintro child ⟨e, found⟩
    rw [found, AssocMap.lookup_insert_fresh fresh found]
  refine built.congr grounded (fun child member => ?_) fun child member => ?_
  · rw [BlockMap.pprevOf, kept child member]
    rfl
  · rw [BlockMap.heightOf, kept child member]
    rfl

theorem grounded_insert_root {map : BlockMap} (grounded : Grounded map)
    (fresh : map.lookup hash = none) (filed : pindex.phashBlock = some hash)
    (prev : pindex.pprev = none) (height : pindex.nHeight = 0) :
    Grounded (map.insert hash pindex) := by
  have cases_of : ∀ {child e}, AList.lookup child (map.insert hash pindex) = some e →
      child = hash ∧ e = pindex ∨ map.lookup child = some e := fun found =>
    AssocMap.of_lookup_insert found
  refine ⟨⟨?_, ?_, ?_⟩, ?_⟩
  · intro child e found
    rcases cases_of found with ⟨rfl, rfl⟩ | old
    · exact filed
    · exact grounded.wellFormed.filed old
  · intro child e hashPrev found prev'
    rcases cases_of found with ⟨rfl, rfl⟩ | old
    · rw [prev] at prev'
      cases prev'
    · obtain ⟨p, foundPrev, above⟩ := grounded.wellFormed.parent old prev'
      exact ⟨p, AssocMap.lookup_insert_fresh fresh foundPrev, above⟩
  · intro child e found none
    rcases cases_of found with ⟨rfl, rfl⟩ | old
    · exact height
    · exact grounded.wellFormed.root old none
  · intro child e found
    rcases cases_of found with ⟨rfl, rfl⟩ | old
    · exact Int.le_of_eq height.symm
    · exact grounded.height old

theorem filed_insert {map : BlockMap} :
    BlockMap.filed (map.insert hash pindex) = insert hash map.filed := by
  ext child
  constructor
  · rintro ⟨e, found⟩
    rcases AssocMap.of_lookup_insert found with ⟨rfl, -⟩ | old
    · exact Or.inl rfl
    · exact Or.inr ⟨e, old⟩
  intro member
  by_cases same : child = hash
  · exact ⟨pindex, by rw [same, AList.lookup_insert]⟩
  · rcases member with rfl | ⟨e, old⟩
    · exact absurd rfl same
    · exact ⟨e, by rw [AList.lookup_insert_ne same, old]⟩

/-- In the order of their heights all blocks get their pointers. -/
theorem built_foldl {map : BlockMap} (grounded : Grounded map) {sorted : List UInt256}
    (member : ∀ hash, hash ∈ sorted ↔ hash ∈ map.filed) (nodup : sorted.Nodup)
    (ascending : sorted.Pairwise fun first second => map.heightOf first ≤ map.heightOf second) :
    (sorted.foldl buildSkip ⟨map, ∅⟩).mapBlockIndex = map ∧
      (sorted.foldl buildSkip ⟨map, ∅⟩).Built map.filed := by
  -- for every beginning of the list: the blocks in it are done
  have front : ∀ done rest : List UInt256, sorted = done ++ rest →
      (done.foldl buildSkip ⟨map, ∅⟩).mapBlockIndex = map ∧
        (done.foldl buildSkip ⟨map, ∅⟩).Built {hash | hash ∈ done} := by
    intro done
    induction done using List.reverseRecOn with
    | nil => exact fun _ _ => ⟨rfl, grounded, nofun, nofun⟩
    | append_singleton done hash ih =>
      intro rest split
      rw [append_assoc, singleton_append] at split
      obtain ⟨same, built⟩ := ih (hash :: rest) split
      rw [foldl_append, foldl_cons, foldl_nil]
      generalize done.foldl buildSkip ⟨map, ∅⟩ = tree at same built ⊢
      subst same
      rw [split] at nodup ascending member
      obtain ⟨pindex, found⟩ := (member hash).mp (by simp)
      have fresh : hash ∉ done := by
        intro twice
        exact (nodup_append.mp nodup).2.2 hash twice hash mem_cons_self rfl
      -- the block below is lower, so it comes earlier
      have known : ∀ hashPrev, pindex.pprev = some hashPrev → hashPrev ∈ {hash | hash ∈ done} := by
        intro hashPrev prev
        have parent : grounded.forest.parent hash = some hashPrev :=
          (BlockMap.pprevOf_of_lookup found).trans prev
        have level : tree.mapBlockIndex.heightOf hash = tree.mapBlockIndex.heightOf hashPrev + 1 :=
          grounded.forest.above parent
        have listed := (member hashPrev).mpr (grounded.filed_of_pprevOf parent)
        rcases mem_append.mp listed with earlier | later
        · exact earlier
        rcases mem_cons.mp later with rfl | later
        · omega
        · have order := (pairwise_cons.mp (pairwise_append.mp ascending).2.1).1 hashPrev
            later
          omega
      obtain ⟨same, next⟩ := built.buildSkip found known fresh
      refine ⟨same, ?_⟩
      have set : {child | child ∈ done ++ [hash]} = Insert.insert hash {child | child ∈ done} := by
        ext child
        simp only [mem_append, mem_singleton, Set.mem_ofPred_eq, Set.mem_insert_iff]
        exact or_comm
      rw [set]
      exact next
  obtain ⟨same, built⟩ := front sorted [] (append_nil sorted).symm
  refine ⟨same, ?_⟩
  have set : {hash | hash ∈ sorted} = map.filed := Set.ext member
  rw [← set]
  exact built

theorem grounded_empty : Grounded ∅ := ⟨⟨nofun, nofun, nofun⟩, nofun⟩

theorem Built.nil (grounded : Grounded tree.mapBlockIndex) : tree.Built ∅ :=
  ⟨grounded, nofun, nofun⟩

/-- Entries that keep their places keep their skip pointers. -/
theorem Built.of_sameTree (built : tree.Built tree.mapBlockIndex.filed) {map : BlockMap}
    (same : tree.mapBlockIndex.SameTree map) : Built ⟨map, tree.pskip⟩ map.filed := by
  have parents : ∀ hash, map.pprevOf hash = tree.mapBlockIndex.pprevOf hash := by
    intro hash
    have place := congrArg (Option.bind · fun place => place.2.1) (same hash)
    simp only [Option.bind_map] at place
    exact place
  have heights : ∀ hash, map.heightOf hash = tree.mapBlockIndex.heightOf hash := by
    intro hash
    have place := congrArg (Option.map fun place => place.2.2.toNat) (same hash)
    simp only [Option.map_map] at place
    exact congrArg (Option.getD · 0) place
  have filed : map.filed = tree.mapBlockIndex.filed := by
    ext hash
    constructor
    · rintro ⟨e, found⟩
      obtain ⟨e', found', -⟩ := same.symm.lookup found
      exact ⟨e', found'⟩
    · rintro ⟨e, found⟩
      obtain ⟨e', found', -⟩ := same.lookup found
      exact ⟨e', found'⟩
  have grounded : Grounded map := by
    refine ⟨.of_sameTree same built.grounded.wellFormed, fun {hash e} found => ?_⟩
    obtain ⟨e', found', place⟩ := same.symm.lookup found
    have level : e'.nHeight = e.nHeight := congrArg (fun place => place.2.2) place
    rw [← level]
    exact built.grounded.height found'
  rw [filed]
  exact built.congr grounded (fun hash _ => parents hash) fun hash _ => heights hash

/-- In every tree that a node builds, all blocks have their skip pointers. -/
theorem Reached.built (reached : tree.Reached) : tree.Built tree.mapBlockIndex.filed := by
  induction reached with
  | empty =>
    have none_filed : BlockMap.filed ∅ = ∅ := by
      refine Set.eq_empty_iff_forall_notMem.mpr fun hash => ?_
      rintro ⟨e, found⟩
      rw [AList.lookup_empty] at found
      cases found
    rw [none_filed]
    exact .nil grounded_empty
  | @add tree hash hashPrevBlock pindexNew _ ih =>
    have unfiled : tree.mapBlockIndex.lookup hash = none → hash ∉ tree.mapBlockIndex.filed := by
      rintro fresh ⟨e, found⟩
      rw [fresh] at found
      cases found
    unfold addToBlockIndex
    cases fresh : tree.mapBlockIndex.lookup hash with
    | some _ => exact ih
    | none =>
      cases foundPrev : tree.mapBlockIndex.lookup hashPrevBlock with
      | some pprev =>
        have built := ih.insert fresh (@grounded_insert _ ih.grounded hash hashPrevBlock
          { pindexNew with
            phashBlock := some hash, pprev := some hashPrevBlock, nHeight := pprev.nHeight + 1 }
          pprev fresh rfl rfl foundPrev rfl)
        obtain ⟨same, next⟩ := built.buildSkip (AList.lookup_insert _)
          (fun hashPrev prev => Option.some.inj prev ▸ ⟨pprev, foundPrev⟩) (unfiled fresh)
        rw [same, filed_insert]
        exact next
      | none =>
        have built := ih.insert fresh (@grounded_insert_root hash
          { pindexNew with phashBlock := some hash, pprev := none, nHeight := 0 } _ ih.grounded
          fresh rfl rfl rfl)
        rw [filed_insert]
        -- without a block below there is nothing to build
        obtain ⟨-, next⟩ := built.buildSkip (AList.lookup_insert _) nofun (unfiled fresh)
        rw [SkipTree.buildSkip, AList.lookup_insert] at next
        exact next
  | update _ same ih => exact ih.of_sameTree same
  | load grounded member nodup ascending =>
    obtain ⟨same, built⟩ := built_foldl grounded member nodup ascending
    rw [same]
    exact built

end Build

/-- `GetAncestor` comes to an end without following a null pointer, at the block that the parents
lead to. -/
theorem getAncestor_eq {tree : SkipTree} (reached : tree.Reached) {hash : UInt256}
    {pindex : CBlockIndex} (found : tree.mapBlockIndex.lookup hash = some pindex) {height : Int}
    (low : 0 ≤ height) (high : height ≤ pindex.nHeight) :
    ∃ ancestor, tree.getAncestor hash height = some (some ancestor) ∧
      tree.mapBlockIndex.pprevTimes (pindex.nHeight - height).toNat hash = some ancestor ∧
      ∃ entry, tree.mapBlockIndex.lookup ancestor = some entry ∧ entry.nHeight = height := by
  have built := reached.built
  have level : built.grounded.forest.height hash = pindex.nHeight.toNat :=
    BlockMap.heightOf_of_lookup found
  obtain ⟨ancestor, here⟩ := @exists_atHeight _ built.grounded.forest hash height.toNat
    (by omega)
  obtain ⟨lower, levelLower⟩ := atHeight_eq_some.mp here
  obtain ⟨entry, foundLower⟩ := built.grounded.filed_of_ancestor lower ⟨pindex, found⟩
  have levelLower : tree.mapBlockIndex.heightOf ancestor = height.toNat := levelLower
  have lowLower := built.grounded.height foundLower
  refine ⟨ancestor, ?_, ?_, entry, foundLower, ?_⟩
  · rw [built.getAncestor_of_done ⟨pindex, found⟩ found, if_neg (by omega), here]
  · rw [Forest.atHeight, if_pos (by omega), level, Grounded.forest_up] at here
    rw [← here]
    congr 1
    omega
  · rw [BlockMap.heightOf_of_lookup foundLower] at levelLower
    omega

def sampleTree : SkipTree :=
  (((⟨∅, ∅⟩ : SkipTree).addToBlockIndex 1 0 { phashBlock := none }).addToBlockIndex 2 1
    { phashBlock := none }).addToBlockIndex 3 2 { phashBlock := none }

theorem reached_sampleTree : sampleTree.Reached :=
  .add 3 2 _ (.add 2 1 _ (.add 1 0 _ .empty))

theorem getAncestor_eq_sample :
    sampleTree.Reached ∧ ∃ ancestor, sampleTree.getAncestor 3 0 = some (some ancestor) ∧
      sampleTree.mapBlockIndex.pprevTimes 2 3 = some ancestor ∧
      ∃ entry, sampleTree.mapBlockIndex.lookup ancestor = some entry ∧ entry.nHeight = 0 :=
  ⟨reached_sampleTree, @getAncestor_eq _ reached_sampleTree 3
    { phashBlock := some 3, pprev := some 2, nHeight := 2 } rfl 0 (by decide) (by decide)⟩

end SkipTree

end Esbcoin
