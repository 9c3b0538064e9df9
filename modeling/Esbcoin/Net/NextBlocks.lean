import Esbcoin.Chain.Forks
import Esbcoin.Net.BlocksInFlight

/-!
# The next blocks of a peer

`FindNextBlocksToDownload` (`src/main.cpp:459-541`) over an index with its skip pointers. The search
goes over the branch of the best block of the peer in batches, and finds what one pass over the
branch finds (`searchLoop_eq`). Heights stay below the end of `int`.
-/

namespace Esbcoin

open Forest List Option

/-- `BLOCK_DOWNLOAD_WINDOW` (`main.h:96`). -/
def BLOCK_DOWNLOAD_WINDOW : Nat := 1024

namespace BlockMap

/-- The work behind a block. -/
def workOf (mapBlockIndex : BlockMap) (hash : UInt256) : Nat :=
  ((mapBlockIndex.lookup hash).map CBlockIndex.nChainWork).getD 0

end BlockMap

/-- What `CNodeState` (`main.cpp:265-311`) knows of the blocks a peer has. A pointer is a hash. -/
structure PeerBlocks where
  pindexBestKnownBlock : Option UInt256 := none
  hashLastUnknownBlock : UInt256 := 0
  pindexLastCommonBlock : Option UInt256 := none
deriving DecidableEq, Repr

namespace PeerBlocks

/-- The pointers lead to entries. -/
structure Filed (state : PeerBlocks) (mapBlockIndex : BlockMap) : Prop where
  best : ∀ hash, state.pindexBestKnownBlock = some hash → hash ∈ mapBlockIndex.filed
  common : ∀ hash, state.pindexLastCommonBlock = some hash → hash ∈ mapBlockIndex.filed

variable (mapBlockIndex : BlockMap) (state : PeerBlocks)

/-- The best known block is `hash` where no better one was known (`main.cpp:414-415`). -/
def offer (hash : UInt256) : PeerBlocks :=
  if state.pindexBestKnownBlock.all fun best => mapBlockIndex.workOf best ≤ mapBlockIndex.workOf hash
  then { state with pindexBestKnownBlock := some hash }
  else state

/-- `ProcessBlockAvailability` (`main.cpp:405-418`). -/
def processBlockAvailability : PeerBlocks :=
  if state.hashLastUnknownBlock ≠ 0 then
    match mapBlockIndex.lookup state.hashLastUnknownBlock with
    | some old =>
      if 0 < old.nChainWork then
        { state.offer mapBlockIndex state.hashLastUnknownBlock with hashLastUnknownBlock := 0 }
      else state
    | none => state
  else state

/-- `UpdateBlockAvailability` (`main.cpp:421-437`). -/
def updateBlockAvailability (hash : UInt256) : PeerBlocks :=
  let state := state.processBlockAvailability mapBlockIndex
  match mapBlockIndex.lookup hash with
  | some pindex =>
    if 0 < pindex.nChainWork then state.offer mapBlockIndex hash
    else { state with hashLastUnknownBlock := hash }
  | none => { state with hashLastUnknownBlock := hash }

variable {mapBlockIndex} {state} {hash : UInt256}

theorem Filed.offer (filed : state.Filed mapBlockIndex) (member : hash ∈ mapBlockIndex.filed) :
    (state.offer mapBlockIndex hash).Filed mapBlockIndex := by
  unfold PeerBlocks.offer
  split
  · refine ⟨fun best same => ?_, filed.common⟩
    obtain rfl := Option.some.inj same
    exact member
  · exact filed

theorem Filed.processBlockAvailability (filed : state.Filed mapBlockIndex) :
    (state.processBlockAvailability mapBlockIndex).Filed mapBlockIndex := by
  unfold PeerBlocks.processBlockAvailability
  split
  · split
    · rename_i old found
      split
      · have offered := filed.offer ⟨old, found⟩
        exact ⟨offered.best, offered.common⟩
      · exact filed
    · exact filed
  · exact filed

/-- What a peer announces leaves the pointers at entries. -/
theorem Filed.updateBlockAvailability (filed : state.Filed mapBlockIndex) (hash : UInt256) :
    (state.updateBlockAvailability mapBlockIndex hash).Filed mapBlockIndex := by
  have processed := filed.processBlockAvailability
  unfold PeerBlocks.updateBlockAvailability
  split
  · rename_i pindex found
    split
    · exact processed.offer ⟨pindex, found⟩
    · exact ⟨processed.best, processed.common⟩
  · exact ⟨processed.best, processed.common⟩

theorem processBlockAvailability_common (mapBlockIndex : BlockMap) (state : PeerBlocks) :
    (state.processBlockAvailability mapBlockIndex).pindexLastCommonBlock =
      state.pindexLastCommonBlock := by
  unfold PeerBlocks.processBlockAvailability PeerBlocks.offer
  split
  · split
    · split
      · split <;> rfl
      · rfl
    · rfl
  · rfl

end PeerBlocks

/-- What the search looks at. -/
structure DownloadEnv where
  tree : SkipTree
  chainActive : CChain
  mapBlocksInFlight : AssocMap UInt256 (NodeId × Nat)

/-- The variables of the search. -/
structure BlockSearch where
  pindexLastCommonBlock : UInt256
  vBlocks : List UInt256
  nodeStaller : NodeId
  waitingfor : NodeId := -1

/-- How the search ends before the loop does. -/
inductive SearchEnd where
  | returned (s : BlockSearch)
  /-- A null pointer is followed, or the loop has not ended. -/
  | stuck

namespace DownloadEnv

variable (env : DownloadEnv)

/-- The height of the entry under a hash. -/
abbrev heightOf (hash : UInt256) : Nat := env.tree.mapBlockIndex.heightOf hash

/-- The block is the other or below it. -/
abbrev AncestorOf (ancestor hash : UInt256) : Prop :=
  env.tree.mapBlockIndex.AncestorOf ancestor hash

/-- One block of the `for` loop (`main.cpp:513-538`). -/
def visitBlock (nodeid : NodeId) (count : UInt32) (nWindowEnd : Int) (s : BlockSearch)
    (hash : UInt256) : Except SearchEnd BlockSearch :=
  match env.tree.mapBlockIndex.lookup hash with
  | none => .error .stuck
  | some pindex =>
    if pindex.nStatus.isValid BLOCK_VALID_TREE = false then .error (.returned s)
    else if pindex.nStatus.haveData then
      .ok (if pindex.nChainTx ≠ 0 then { s with pindexLastCommonBlock := hash } else s)
    else
      match env.mapBlocksInFlight.lookup pindex.getBlockHash with
      | none =>
        if pindex.nHeight > nWindowEnd then
          .error (.returned
            (if s.vBlocks.length = 0 ∧ s.waitingfor ≠ nodeid then
              { s with nodeStaller := s.waitingfor }
            else s))
        else
          let s := { s with vBlocks := s.vBlocks ++ [hash] }
          if s.vBlocks.length = count.toNat then .error (.returned s) else .ok s
      | some (holder, _) =>
        .ok (if s.waitingfor = -1 then { s with waitingfor := holder } else s)

/-- `vToFetch` from its last element on (`main.cpp:507-510`), behind so many others. -/
def fillBack : Nat → UInt256 → List UInt256 → Option (List UInt256)
  | 0, pindex, later => some (pindex :: later)
  | i + 1, pindex, later =>
    (env.tree.mapBlockIndex.pprevOf pindex).bind fun pprev => fillBack i pprev (pindex :: later)

/-- The length of a batch (`main.cpp:504`); `std::max<int>` makes an `int` of its argument. -/
def nToFetch (count : UInt32) (nMaxHeight nHeight : Int) (s : BlockSearch) : Int :=
  min (nMaxHeight - nHeight) (max (BitVec.ofInt 32 (count.toNat - s.vBlocks.length)).toInt 128)

/-- `while (pindexWalk->nHeight < nMaxHeight)` (`main.cpp:500-539`). -/
def searchLoop (nodeid : NodeId) (count : UInt32) (best : UInt256) (nMaxHeight nWindowEnd : Int) :
    Nat → UInt256 → BlockSearch → Except SearchEnd BlockSearch
  | 0, _, _ => .error .stuck
  | turns + 1, pindexWalk, s =>
    match env.tree.mapBlockIndex.lookup pindexWalk with
    | none => .error .stuck
    | some walk =>
      if walk.nHeight < nMaxHeight then
        let nToFetch := nToFetch count nMaxHeight walk.nHeight s
        match env.tree.getAncestor best (walk.nHeight + nToFetch) with
        | some (some pindexWalk) =>
          match env.fillBack (nToFetch - 1).toNat pindexWalk [] with
          | some vToFetch => do
            let s ← vToFetch.foldlM (env.visitBlock nodeid count nWindowEnd) s
            searchLoop nodeid count best nMaxHeight nWindowEnd turns pindexWalk s
          | none => .error .stuck
        | _ => .error .stuck
      else .ok s

/-- The search from the common block on (`main.cpp:489-540`). -/
def searchFrom (nodeid : NodeId) (count : UInt32) (best common : UInt256) (vBlocks : List UInt256)
    (nodeStaller : NodeId) : Option BlockSearch :=
  let nWindowEnd : Int := env.heightOf common + BLOCK_DOWNLOAD_WINDOW
  let nMaxHeight : Int := min (env.heightOf best) (nWindowEnd + 1)
  match env.searchLoop nodeid count best nMaxHeight nWindowEnd (BLOCK_DOWNLOAD_WINDOW + 2) common
    { pindexLastCommonBlock := common, vBlocks, nodeStaller } with
  | .ok s | .error (.returned s) => some s
  | .error .stuck => none

/-- `FindNextBlocksToDownload` (`main.cpp:461-541`): the state of the peer, `vBlocks` and
`nodeStaller` behind it; `none` where it does not return. -/
def findNextBlocksToDownload (nodeid : NodeId) (count : UInt32) (state : PeerBlocks)
    (vBlocks : List UInt256) (nodeStaller : NodeId) :
    Option (PeerBlocks × List UInt256 × NodeId) :=
  if count = 0 then some (state, vBlocks, nodeStaller)
  else
    let state := state.processBlockAvailability env.tree.mapBlockIndex
    match state.pindexBestKnownBlock with
    | none => some (state, vBlocks, nodeStaller)
    | some best =>
      env.chainActive.tip.bind fun tip =>
        if env.tree.mapBlockIndex.workOf best < env.tree.mapBlockIndex.workOf tip then
          some (state, vBlocks, nodeStaller)
        else
          (state.pindexLastCommonBlock.or
            (env.chainActive.atHeight
              (min (env.heightOf best) env.chainActive.height))).bind fun last =>
            (env.tree.lastCommonAncestor last best).join.bind fun common =>
              if common = best then
                some ({ state with pindexLastCommonBlock := some common }, vBlocks, nodeStaller)
              else
                (env.searchFrom nodeid count best common vBlocks nodeStaller).map fun s =>
                  ({ state with pindexLastCommonBlock := some s.pindexLastCommonBlock },
                    s.vBlocks, s.nodeStaller)

/-! ## What is looked for -/

/-- The block is known and not stored. -/
def isMissing (hash : UInt256) : Bool :=
  (env.tree.mapBlockIndex.lookup hash).any fun pindex => !pindex.nStatus.haveData

/-- The peer that a block was asked of. -/
def holder (hash : UInt256) : Option NodeId := (env.mapBlocksInFlight.lookup hash).map Prod.fst

/-- The block is neither stored nor in flight. -/
def isWanted (hash : UInt256) : Bool := env.isMissing hash && (env.holder hash).isNone

/-- The block is missing, and was asked of a peer. -/
def isAwaited (hash : UInt256) : Bool := env.isMissing hash && (env.holder hash).isSome

/-- The block is known and valid as part of the tree. -/
def isValid (hash : UInt256) : Bool :=
  (env.tree.mapBlockIndex.lookup hash).any fun pindex => pindex.nStatus.isValid BLOCK_VALID_TREE

/-- A block that can be fetched: on the branch of `best`, above `common`, in the window. -/
structure Fetchable (best common hash : UInt256) : Prop where
  branch : env.AncestorOf hash best
  above : env.heightOf common < env.heightOf hash
  inWindow : env.heightOf hash ≤ env.heightOf common + BLOCK_DOWNLOAD_WINDOW
  wanted : env.isWanted hash = true

/-- The lowest blocks that can be fetched, up to a number of them or an invalid block. -/
structure Fetched (best common : UInt256) (room : Nat) (added : List UInt256) : Prop where
  increasing : added.Pairwise fun first second => env.heightOf first < env.heightOf second
  fetchable : ∀ hash ∈ added, env.Fetchable best common hash
  few : added.length ≤ room
  lowest : ∀ hash, env.Fetchable best common hash → hash ∈ added ∨
    (∀ lower ∈ added, env.heightOf lower < env.heightOf hash) ∧
    (added.length = room ∨ ∃ bad, env.AncestorOf bad hash ∧
      env.heightOf common < env.heightOf bad ∧ env.isValid bad = false)

/-- Nothing can be fetched because the window is full, and another peer holds the first missing
block. -/
structure Stalled (nodeid : NodeId) (best common : UInt256) (staller : NodeId) : Prop where
  nothing : ∀ hash, ¬ env.Fetchable best common hash
  beyond : ∃ hash, env.AncestorOf hash best ∧ env.isWanted hash = true ∧
    env.heightOf hash = env.heightOf common + BLOCK_DOWNLOAD_WINDOW + 1
  first : ∃ hash, env.AncestorOf hash best ∧ env.heightOf common < env.heightOf hash ∧
    env.isMissing hash = true ∧ env.holder hash = some staller ∧
    ∀ lower, env.AncestorOf lower hash → env.heightOf common < env.heightOf lower →
      env.isMissing lower = true → lower = hash
  other : staller ≠ nodeid

/-- The peer has nothing that is as good as the active chain. -/
def Uninteresting (best : Option UInt256) : Prop :=
  ∀ hash, best = some hash → ∃ tip, env.chainActive.tip = some tip ∧
    env.tree.mapBlockIndex.workOf hash < env.tree.mapBlockIndex.workOf tip

/-! ## One block -/

section Visit

variable {env} {nodeid : NodeId} {count : UInt32} {nWindowEnd : Int} {s s' : BlockSearch}
  {hash : UInt256}

/-- What the search does with a block. -/
theorem visitBlock_cases (grounded : Grounded env.tree.mapBlockIndex)
    (filed : hash ∈ env.tree.mapBlockIndex.filed) :
    (env.isValid hash = false ∧
      env.visitBlock nodeid count nWindowEnd s hash = .error (.returned s)) ∨
    env.isValid hash = true ∧
      ((env.isMissing hash = false ∧ ∃ pindexLastCommonBlock,
        env.visitBlock nodeid count nWindowEnd s hash = .ok { s with pindexLastCommonBlock }) ∨
      (∃ holder, env.isMissing hash = true ∧ env.holder hash = some holder ∧
        env.visitBlock nodeid count nWindowEnd s hash =
          .ok (if s.waitingfor = -1 then { s with waitingfor := holder } else s)) ∨
      (env.isWanted hash = true ∧ nWindowEnd < env.heightOf hash ∧
        env.visitBlock nodeid count nWindowEnd s hash = .error (.returned
          (if s.vBlocks.length = 0 ∧ s.waitingfor ≠ nodeid then
            { s with nodeStaller := s.waitingfor } else s))) ∨
      (env.isWanted hash = true ∧ env.heightOf hash ≤ nWindowEnd ∧
        env.visitBlock nodeid count nWindowEnd s hash =
          if s.vBlocks.length + 1 = count.toNat then
            .error (.returned { s with vBlocks := s.vBlocks ++ [hash] })
          else .ok { s with vBlocks := s.vBlocks ++ [hash] })) := by
  obtain ⟨pindex, found⟩ := filed
  have named : pindex.getBlockHash = hash := by
    rw [CBlockIndex.getBlockHash, grounded.wellFormed.filed found, getD_some]
  have low := grounded.height found
  have level : env.heightOf hash = _ := BlockMap.heightOf_of_lookup found
  have valid : env.isValid hash = pindex.nStatus.isValid BLOCK_VALID_TREE := by
    rw [isValid, found, any_some]
  have missing : env.isMissing hash = !pindex.nStatus.haveData := by
    rw [isMissing, found, any_some]
  unfold visitBlock isWanted holder
  rw [found, valid, missing, level]
  dsimp only
  rw [named]
  cases pindex.nStatus.isValid BLOCK_VALID_TREE with
  | false => exact Or.inl ⟨rfl, if_pos rfl⟩
  | true =>
    refine Or.inr ⟨rfl, ?_⟩
    rw [if_neg Bool.noConfusion]
    cases pindex.nStatus.haveData with
    | true =>
      refine Or.inl ⟨rfl, ?_⟩
      rw [if_pos rfl]
      by_cases linked : pindex.nChainTx ≠ 0
      · exact ⟨hash, by rw [if_pos linked]⟩
      · exact ⟨s.pindexLastCommonBlock, by rw [if_neg linked]⟩
    | false =>
      rw [if_neg Bool.noConfusion]
      refine Or.inr ?_
      cases env.mapBlocksInFlight.lookup hash with
      | some held => exact Or.inl ⟨held.1, rfl, rfl, rfl⟩
      | none =>
        refine Or.inr ?_
        by_cases beyond : pindex.nHeight > nWindowEnd
        · exact Or.inl ⟨rfl, by omega, if_pos beyond⟩
        · refine Or.inr ⟨rfl, by omega, ?_⟩
          rw [if_neg beyond, length_append, length_singleton]

variable (env count nWindowEnd) in
/-- The search has seen these blocks and goes on. -/
structure Searched (vBlocks : List UInt256) (nodeStaller : NodeId) (seen : List UInt256)
    (s : BlockSearch) : Prop where
  vBlocks : s.vBlocks = vBlocks ++ seen.filter env.isWanted
  inWindow : ∀ hash ∈ seen, env.isWanted hash = true → env.heightOf hash ≤ nWindowEnd
  room : s.vBlocks.length < count.toNat
  nodeStaller : s.nodeStaller = nodeStaller
  waitingfor : s.waitingfor = ((seen.find? env.isAwaited).bind env.holder).getD (-1)

theorem Searched.visit {vBlocks : List UInt256} {nodeStaller : NodeId} {seen : List UInt256}
    (searched : Searched env count nWindowEnd vBlocks nodeStaller seen s)
    (grounded : Grounded env.tree.mapBlockIndex)
    (peers : ∀ hash, env.holder hash ≠ some (-1)) (filed : hash ∈ env.tree.mapBlockIndex.filed)
    (visited : env.visitBlock nodeid count nWindowEnd s hash = .ok s') :
    Searched env count nWindowEnd vBlocks nodeStaller (seen ++ [hash]) s' := by
  -- where the block is not wanted, only what is waited for can change
  have unwanted : env.isWanted hash = false → s'.vBlocks = s.vBlocks → s'.nodeStaller = s.nodeStaller →
      s'.waitingfor = (((seen ++ [hash]).find? env.isAwaited).bind env.holder).getD (-1) →
      Searched env count nWindowEnd vBlocks nodeStaller (seen ++ [hash]) s' := by
    intro unwanted sameBlocks sameStaller waitingfor
    refine ⟨?_, fun other member wanted => ?_, by rw [sameBlocks]; exact searched.room,
      sameStaller.trans searched.nodeStaller, waitingfor⟩
    · rw [sameBlocks, searched.vBlocks, filter_append,
        filter_cons_of_neg (by rw [unwanted]; exact Bool.noConfusion), filter_nil,
        append_nil]
    rcases mem_append.mp member with member | last
    · exact searched.inWindow other member wanted
    · rw [mem_singleton.mp last, unwanted] at wanted
      cases wanted
  have unawaited : env.isAwaited hash = false →
      (seen ++ [hash]).find? env.isAwaited = seen.find? env.isAwaited := by
    intro unawaited
    rw [List.find?_append, List.find?_cons_of_neg (by rw [unawaited]; exact Bool.noConfusion),
      List.find?_nil, or_none]
  rcases @visitBlock_cases env nodeid count nWindowEnd s hash grounded filed with
    ⟨-, result⟩ | ⟨-, ⟨present, last, result⟩ | ⟨holder, missing, held, result⟩ |
      ⟨-, -, result⟩ | ⟨wanted, inWindow, result⟩⟩ <;> rw [result] at visited
  · cases visited
  · obtain rfl := Except.ok.inj visited
    refine unwanted (by rw [isWanted, present]; rfl) rfl rfl ?_
    rw [unawaited (by rw [isAwaited, present]; rfl)]
    exact searched.waitingfor
  · obtain rfl := Except.ok.inj visited
    have awaited : env.isAwaited hash = true := by
      rw [isAwaited, missing, held]
      rfl
    refine unwanted (by rw [isWanted, held, isNone_some, Bool.and_false]) (by split <;> rfl)
      (by split <;> rfl) ?_
    rw [List.find?_append, List.find?_cons_of_pos awaited]
    have waitingfor := searched.waitingfor
    cases first : seen.find? env.isAwaited with
    | none =>
      rw [first, bind_none, getD_none] at waitingfor
      rw [if_pos waitingfor, none_or, bind_some, held]
      rfl
    | some other =>
      have awaited : env.isAwaited other = true := List.find?_some first
      obtain ⟨holder', held'⟩ := isSome_iff_exists.mp (Bool.and_eq_true_iff.mp awaited).2
      rw [first, bind_some, held', getD_some] at waitingfor
      have isPeer : s.waitingfor ≠ -1 := by
        rintro none
        rw [waitingfor] at none
        exact peers other (none ▸ held')
      rw [if_neg isPeer, some_or, bind_some, held', waitingfor]
      rfl
  · cases visited
  · split at visited
    · cases visited
    rename_i unfilled
    obtain rfl := Except.ok.inj visited
    have room := searched.room
    obtain ⟨-, unheld⟩ := Bool.and_eq_true_iff.mp wanted
    refine ⟨?_, fun other member wanted => ?_, ?_, searched.nodeStaller, ?_⟩
    · show s.vBlocks ++ [hash] = _
      rw [searched.vBlocks, filter_append, filter_cons_of_pos wanted, filter_nil,
        append_assoc]
    · rcases mem_append.mp member with member | last
      · exact searched.inWindow other member wanted
      · rw [mem_singleton.mp last]
        exact inWindow
    · show (s.vBlocks ++ [hash]).length < count.toNat
      rw [length_append, length_singleton]
      omega
    · rw [unawaited (by rw [isAwaited, isNone_iff_eq_none.mp unheld]; exact Bool.and_false _)]
      exact searched.waitingfor

end Visit

/-! ## The batches -/

section Batches

variable {env} {nodeid : NodeId} {count : UInt32} {best : UInt256}

theorem fillBack_eq (built : env.tree.Built env.tree.mapBlockIndex.filed) {n : Nat}
    {pindex : UInt256} (below : n ≤ built.grounded.forest.height pindex) (later : List UInt256) :
    env.fillBack n pindex later = some (built.grounded.forest.highest (n + 1) pindex ++ later) := by
  induction n generalizing pindex later with
  | zero =>
    rw [fillBack, highest]
    cases built.grounded.forest.parent pindex <;> rfl
  | succ n ih =>
    obtain ⟨pprev, parent⟩ := exists_parent (Nat.lt_of_lt_of_le (Nat.succ_pos n) below)
    have level := built.grounded.forest.above parent
    rw [fillBack, show env.tree.mapBlockIndex.pprevOf pindex = some pprev from parent,
      bind_some, ih (by omega), highest_succ parent, append_assoc]
    rfl

/-- Batch by batch the search goes once over the branch of `top`. -/
theorem searchLoop_eq (built : env.tree.Built env.tree.mapBlockIndex.filed)
    (filed : best ∈ env.tree.mapBlockIndex.filed) {top pindexWalk : UInt256} {turns : Nat}
    {nWindowEnd : Int} {s : BlockSearch} (onBranch : built.grounded.forest.Ancestor top best)
    (walked : built.grounded.forest.Ancestor pindexWalk top)
    (enough : built.grounded.forest.height top < built.grounded.forest.height pindexWalk + turns) :
    env.searchLoop nodeid count best (built.grounded.forest.height top) nWindowEnd turns pindexWalk
        s =
      (built.grounded.forest.highest (built.grounded.forest.height top -
        built.grounded.forest.height pindexWalk) top).foldlM
          (env.visitBlock nodeid count nWindowEnd) s := by
  induction turns generalizing pindexWalk s with
  | zero => exact absurd walked.height_le (by omega)
  | succ turns ih =>
    obtain ⟨walk, found⟩ := built.grounded.filed_of_ancestor (walked.trans onBranch) filed
    have low := built.grounded.height found
    have level : built.grounded.forest.height pindexWalk = walk.nHeight.toNat :=
      BlockMap.heightOf_of_lookup found
    rw [searchLoop, found]
    dsimp only
    by_cases more : walk.nHeight < built.grounded.forest.height top
    · obtain ⟨k, size⟩ := Int.eq_ofNat_of_zero_le (show 0 ≤ nToFetch count
        (built.grounded.forest.height top) walk.nHeight s by unfold nToFetch; omega)
      have some : 1 ≤ k ∧ walk.nHeight + k ≤ built.grounded.forest.height top := by
        unfold nToFetch at size
        omega
      obtain ⟨next, here⟩ := @exists_atHeight _ built.grounded.forest top
        (walk.nHeight + k).toNat (by omega)
      obtain ⟨lower, levelNext⟩ := atHeight_eq_some.mp here
      obtain ⟨n, up⟩ := id lower
      have steps := height_of_up up
      have slot : env.tree.getAncestor best (walk.nHeight + k) = Option.some (Option.some next) := by
        obtain ⟨pindex, foundBest⟩ := filed
        rw [built.getAncestor_of_done ⟨pindex, foundBest⟩ foundBest, if_neg (by omega)]
        exact congrArg _ (atHeight_eq_some.mpr ⟨lower.trans onBranch, levelNext⟩)
      rw [if_pos more, size, slot]
      dsimp only
      rw [fillBack_eq built (show ((k : Int) - 1).toNat ≤ _ by omega),
        show ((k : Int) - 1).toNat + 1 = k by omega, append_nil]
      dsimp only
      rw [show built.grounded.forest.height top - built.grounded.forest.height pindexWalk = k + n by
        omega, highest_add up, foldlM_append]
      refine congrArg _ (funext fun s => ?_)
      rw [ih lower (by omega), show built.grounded.forest.height top -
        built.grounded.forest.height next = n by omega]
    · rw [if_neg more, show built.grounded.forest.height top -
        built.grounded.forest.height pindexWalk = 0 by omega]
      rfl

end Batches

/-! ## What the search finds -/

section Result

variable {env} {nodeid : NodeId} {count : UInt32} {best common top : UInt256}
  {vBlocks : List UInt256} {nodeStaller : NodeId}

theorem mem_branch (built : env.tree.Built env.tree.mapBlockIndex.filed)
    (reaches : env.heightOf common ≤ env.heightOf top) {hash : UInt256} :
    hash ∈ built.grounded.forest.highest (env.heightOf top - env.heightOf common) top ↔
      built.grounded.forest.Ancestor hash top ∧ env.heightOf common < env.heightOf hash := by
  rw [mem_highest]
  show _ ∧ env.heightOf top < env.heightOf hash + _ ↔ _
  constructor
  · rintro ⟨lower, above⟩
    exact ⟨lower, by omega⟩
  · rintro ⟨lower, above⟩
    exact ⟨lower, by omega⟩

variable (env nodeid best common top) in
/-- The search ends behind a part of the branch. -/
structure Stops (built : env.tree.Built env.tree.mapBlockIndex.filed) (part rest : List UInt256) :
    Prop where
  onBranch : built.grounded.forest.Ancestor top best
  reaches : env.heightOf common ≤ env.heightOf top
  height : env.heightOf top =
    min (env.heightOf best) (env.heightOf common + BLOCK_DOWNLOAD_WINDOW + 1)
  parts : built.grounded.forest.highest (env.heightOf top - env.heightOf common) top = part ++ rest
  inWindow : ∀ hash ∈ part, env.isWanted hash = true →
    env.heightOf hash ≤ env.heightOf common + BLOCK_DOWNLOAD_WINDOW

namespace Stops

variable {built : env.tree.Built env.tree.mapBlockIndex.filed} {part rest : List UInt256}
  {hash : UInt256}

section

variable (stops : Stops env best common top built part rest)
include stops

theorem mem_iff :
    hash ∈ part ∨ hash ∈ rest ↔
      built.grounded.forest.Ancestor hash top ∧ env.heightOf common < env.heightOf hash := by
  rw [← mem_append, ← stops.parts, mem_branch built stops.reaches]

theorem ordered :
    (part ++ rest).Pairwise fun first second => env.heightOf first < env.heightOf second := by
  rw [← stops.parts]
  exact built.grounded.forest.pairwise_highest _ top

/-- A block that can be fetched is on the branch. -/
theorem mem_of_fetchable (fetchable : env.Fetchable best common hash) :
    hash ∈ part ∨ hash ∈ rest := by
  have lower := built.grounded.ancestor_iff.mpr fetchable.branch
  have below : env.heightOf hash ≤ env.heightOf best :=
    lower.height_le
  have inWindow := fetchable.inWindow
  have height := stops.height
  refine stops.mem_iff.mpr ⟨lower.of_le stops.onBranch ?_, fetchable.above⟩
  show env.heightOf hash ≤ env.heightOf top
  omega

/-- Behind the part the search has found the lowest blocks, if what it leaves out could not be
taken. -/
theorem fetched {room : Nat} (few : (part.filter env.isWanted).length ≤ room)
    (left : ∀ hash ∈ rest, env.Fetchable best common hash →
      (part.filter env.isWanted).length = room ∨ ∃ bad, env.AncestorOf bad hash ∧
        env.heightOf common < env.heightOf bad ∧ env.isValid bad = false)
    :
    env.Fetched best common room (part.filter env.isWanted) where
  increasing := (pairwise_append.mp stops.ordered).1.sublist filter_sublist
  fetchable hash member := by
    obtain ⟨inPart, wanted⟩ := mem_filter.mp member
    obtain ⟨lower, above⟩ := stops.mem_iff.mp (Or.inl inPart)
    exact ⟨built.grounded.ancestor_iff.mp (lower.trans stops.onBranch), above,
      stops.inWindow hash inPart wanted, wanted⟩
  few := few
  lowest hash fetchable := by
    rcases stops.mem_of_fetchable fetchable with inPart | inRest
    · exact Or.inl (mem_filter.mpr ⟨inPart, fetchable.wanted⟩)
    · refine Or.inr ⟨fun lower member => ?_, left hash inRest fetchable⟩
      exact (pairwise_append.mp stops.ordered).2.2 lower (mem_filter.mp member).1 hash
        inRest

end

/-- Where nothing was found up to a block behind the window, the first missing block is awaited. -/
theorem stalled (stops : Stops env best common top built part (hash :: rest))
    (nothing : part.filter env.isWanted = []) (wanted : env.isWanted hash = true)
    (beyond : env.heightOf common + BLOCK_DOWNLOAD_WINDOW < env.heightOf hash)
    {first : UInt256} {staller : NodeId}
    (awaited : part.find? env.isAwaited = some first) (held : env.holder first = some staller)
    (other : staller ≠ nodeid) : env.Stalled nodeid best common staller := by
  obtain ⟨-, sorted, later⟩ := pairwise_append.mp stops.ordered
  obtain ⟨behind, -⟩ := pairwise_cons.mp sorted
  have unwanted : ∀ lower ∈ part, env.isWanted lower ≠ true := filter_eq_nil_iff.mp nothing
  obtain ⟨lowerHash, -⟩ := stops.mem_iff.mp (Or.inr mem_cons_self)
  have below : env.heightOf hash ≤ env.heightOf top :=
    lowerHash.height_le
  have height := stops.height
  obtain ⟨awaits, before, after, split, noneBefore⟩ := List.find?_eq_some_iff_append.mp awaited
  have inPart : first ∈ part := split ▸ mem_append_right _ mem_cons_self
  obtain ⟨lowerFirst, above⟩ := stops.mem_iff.mp (Or.inl inPart)
  refine ⟨fun hash' fetchable => ?_, ⟨hash, built.grounded.ancestor_iff.mp
    (lowerHash.trans stops.onBranch), wanted, by omega⟩, ⟨first, built.grounded.ancestor_iff.mp
    (lowerFirst.trans stops.onBranch), above, (Bool.and_eq_true_iff.mp awaits).1, held,
    fun lower branch aboveLower missing => ?_⟩, other⟩
  · have inWindow := fetchable.inWindow
    rcases stops.mem_of_fetchable fetchable with here | here
    · exact unwanted hash' here fetchable.wanted
    rcases mem_cons.mp here with rfl | here
    · omega
    · have := behind hash' here
      omega
  have branch := built.grounded.ancestor_iff.mpr branch
  have level : env.heightOf lower ≤ env.heightOf first :=
    branch.height_le
  rcases stops.mem_iff.mpr ⟨branch.trans lowerFirst, aboveLower⟩ with here | here
  · have awaits' : env.isAwaited lower = true := by
      have notWanted := unwanted lower here
      unfold isWanted at notWanted
      unfold isAwaited
      rw [missing] at notWanted ⊢
      cases holder : env.holder lower with
      | none => exact absurd (by rw [holder]; rfl) notWanted
      | some _ => rfl
    have sorted := (pairwise_append.mp stops.ordered).1
    rw [split] at here sorted
    obtain ⟨-, sorted, -⟩ := pairwise_append.mp sorted
    rcases mem_append.mp here with here | here
    · have never := noneBefore lower here
      rw [awaits'] at never
      cases never
    rcases mem_cons.mp here with same | here
    · exact same
    · have := (pairwise_cons.mp sorted).1 lower here
      omega
  · have := later first inPart lower here
    omega

end Stops

/-- The search returns, with the lowest blocks that can be fetched. -/
theorem searchFrom_found (built : env.tree.Built env.tree.mapBlockIndex.filed)
    (peers : ∀ hash, env.holder hash ≠ some (-1)) (filed : best ∈ env.tree.mapBlockIndex.filed)
    (lower : built.grounded.forest.Ancestor common best)
    (room : vBlocks.length < count.toNat) :
    ∃ s added, env.searchFrom nodeid count best common vBlocks nodeStaller = some s ∧
      s.vBlocks = vBlocks ++ added ∧
      env.Fetched best common (count.toNat - vBlocks.length) added ∧
      (s.nodeStaller = nodeStaller ∨ s.nodeStaller = -1 ∨
        vBlocks ++ added = [] ∧ env.Stalled nodeid best common s.nodeStaller) := by
  have level : env.heightOf common ≤ env.heightOf best := lower.height_le
  obtain ⟨top, here⟩ := @exists_atHeight _ built.grounded.forest best
    (min (env.heightOf best) (env.heightOf common + BLOCK_DOWNLOAD_WINDOW + 1))
    (Nat.min_le_left _ _)
  obtain ⟨onBranch, height⟩ := atHeight_eq_some.mp here
  have height : env.heightOf top = _ := height
  have reaches : env.heightOf common ≤ env.heightOf top := by omega
  have onBranchFiled :
      ∀ hash ∈ built.grounded.forest.highest (env.heightOf top - env.heightOf common) top,
        hash ∈ env.tree.mapBlockIndex.filed := fun hash member =>
    built.grounded.filed_of_ancestor (((mem_branch built reaches).mp member).1.trans onBranch) filed
  have run : env.searchLoop nodeid count best (env.heightOf top)
      (env.heightOf common + BLOCK_DOWNLOAD_WINDOW) (BLOCK_DOWNLOAD_WINDOW + 2)
      common { pindexLastCommonBlock := common, vBlocks, nodeStaller } =
      (built.grounded.forest.highest (env.heightOf top - env.heightOf common) top).foldlM _ _ :=
    searchLoop_eq built filed onBranch (lower.of_le onBranch reaches) (by
      show env.heightOf top < env.heightOf common + _
      omega)
  have limit : min (env.heightOf best : Int) (env.heightOf common + BLOCK_DOWNLOAD_WINDOW + 1) =
      env.heightOf top := by
    omega
  have start : Searched env count (env.heightOf common + BLOCK_DOWNLOAD_WINDOW)
      vBlocks nodeStaller [] { pindexLastCommonBlock := common, vBlocks, nodeStaller } :=
    ⟨(append_nil vBlocks).symm, nofun, room, rfl, rfl⟩
  -- what is kept while the search goes on, for the part of the branch behind which it ends
  have found : ∀ {part rest s},
      built.grounded.forest.highest (env.heightOf top - env.heightOf common) top = part ++ rest →
      Searched env count (env.heightOf common + BLOCK_DOWNLOAD_WINDOW) vBlocks nodeStaller part s →
      Stops env best common top built part rest ∧
        (part.filter env.isWanted).length < count.toNat - vBlocks.length := by
    intro part rest s parts searched
    have few := searched.room
    rw [searched.vBlocks, length_append] at few
    refine ⟨⟨onBranch, reaches, height, parts, fun hash member wanted => ?_⟩, by omega⟩
    have inWindow := searched.inWindow hash member wanted
    omega
  unfold searchFrom
  dsimp only
  rw [limit, run]
  rcases StepRun.foldlM_cases start fun first hash member s s' searched visited =>
      @Searched.visit env nodeid count _ s s' hash _ _ _ searched built.grounded peers
        (onBranchFiled hash member) visited with
    ⟨s, ended, searched⟩ | ⟨part, hash, rest, s, e, parts, searched, ends, ended⟩
  · obtain ⟨stops, few⟩ := found (append_nil _).symm searched
    rw [ended]
    exact ⟨s, _, rfl, searched.vBlocks, stops.fetched (Nat.le_of_lt few) nofun,
      Or.inl searched.nodeStaller⟩
  obtain ⟨stops, few⟩ := found parts searched
  have filed' := onBranchFiled hash
    (parts ▸ mem_append_right _ mem_cons_self)
  obtain ⟨lowerHash, above⟩ := stops.mem_iff.mp (Or.inr mem_cons_self)
  obtain ⟨behind, -⟩ := pairwise_cons.mp (pairwise_append.mp stops.ordered).2.1
  rw [ended]
  rcases @visitBlock_cases env nodeid count _ s hash built.grounded filed' with
    ⟨invalid, result⟩ | ⟨-, ⟨-, last, result⟩ | ⟨holder, -, -, result⟩ |
      ⟨wanted, beyond, result⟩ | ⟨wanted, inWindow, result⟩⟩ <;> rw [result] at ends
  · obtain rfl := Except.error.inj ends
    refine ⟨s, _, rfl, searched.vBlocks, stops.fetched (Nat.le_of_lt few) fun other member _ =>
      Or.inr ⟨hash, ?_, above, invalid⟩, Or.inl searched.nodeStaller⟩
    rcases mem_cons.mp member with rfl | member
    · exact ⟨0, rfl⟩
    · obtain ⟨lowerOther, -⟩ := stops.mem_iff.mp (Or.inr (mem_cons_of_mem _ member))
      exact built.grounded.ancestor_iff.mp
        (lowerHash.of_le lowerOther (Nat.le_of_lt (behind other member)))
  · cases ends
  · cases ends
  · obtain rfl := Except.error.inj ends
    have fetched : env.Fetched best common (count.toNat - vBlocks.length)
        (part.filter env.isWanted) := by
      refine stops.fetched (Nat.le_of_lt few) fun other member fetchable => ?_
      have inWindow := fetchable.inWindow
      rcases mem_cons.mp member with rfl | member
      · omega
      · have := behind other member
        omega
    by_cases stuck : s.vBlocks.length = 0 ∧ s.waitingfor ≠ nodeid
    · rw [if_pos stuck]
      refine ⟨_, _, rfl, searched.vBlocks, fetched, Or.inr ?_⟩
      have empty := length_eq_zero_iff.mp stuck.1
      rw [searched.vBlocks] at empty
      have waitingfor := searched.waitingfor
      cases awaited : part.find? env.isAwaited with
      | none =>
        rw [awaited] at waitingfor
        exact Or.inl waitingfor
      | some first =>
        have awaits : env.isAwaited first = true := List.find?_some awaited
        obtain ⟨staller, held⟩ :=
          isSome_iff_exists.mp (Bool.and_eq_true_iff.mp awaits).2
        rw [awaited, bind_some, held, getD_some] at waitingfor
        exact Or.inr ⟨empty, stops.stalled (append_eq_nil_iff.mp empty).2 wanted (by omega)
          awaited (waitingfor ▸ held) stuck.2⟩
    · rw [if_neg stuck]
      exact ⟨s, _, rfl, searched.vBlocks, fetched, Or.inl searched.nodeStaller⟩
  · split at ends
    · rename_i full
      obtain rfl := Except.error.inj ends
      have taken : (part ++ [hash]).filter env.isWanted = part.filter env.isWanted ++ [hash] := by
        rw [filter_append, filter_cons_of_pos wanted, filter_nil]
      have stops' : Stops env best common top built (part ++ [hash]) rest := by
        refine ⟨onBranch, reaches, height, ?_, fun other member wanted' => ?_⟩
        · rw [parts, append_assoc, singleton_append]
        rcases mem_append.mp member with member | last
        · exact stops.inWindow other member wanted'
        · obtain rfl := mem_singleton.mp last
          omega
      have count' : ((part ++ [hash]).filter env.isWanted).length =
          count.toNat - vBlocks.length := by
        rw [taken, length_append, length_singleton]
        rw [searched.vBlocks, length_append] at full
        omega
      refine ⟨_, _, rfl, ?_, stops'.fetched (Nat.le_of_eq count') fun _ _ _ => Or.inl count',
        Or.inl searched.nodeStaller⟩
      rw [taken, ← append_assoc, ← searched.vBlocks]
    · cases ends

end Result

/-- `FindNextBlocksToDownload` returns, with the lowest blocks on the branch of the best known block
that can be fetched, and it names a staller where the window is full. No peer has the number -1. -/
theorem next_blocks_found {env : DownloadEnv} (reached : env.tree.Reached)
    (oneRoot : env.tree.mapBlockIndex.OneRoot)
    (linked : env.chainActive.Linked env.tree.mapBlockIndex)
    (nonempty : env.chainActive.vChain ≠ []) (peers : ∀ hash, env.holder hash ≠ some (-1))
    (nodeid : NodeId) (count : UInt32) {state : PeerBlocks}
    (filed : state.Filed env.tree.mapBlockIndex) {vBlocks : List UInt256}
    (room : count ≠ 0 → vBlocks.length < count.toNat) (nodeStaller : NodeId) :
    ∃ after added staller, env.findNextBlocksToDownload nodeid count state vBlocks nodeStaller =
        some (after, vBlocks ++ added, staller) ∧
      { after with pindexLastCommonBlock := state.pindexLastCommonBlock } =
        (if count = 0 then state else state.processBlockAvailability env.tree.mapBlockIndex) ∧
      ((count = 0 ∨ env.Uninteresting after.pindexBestKnownBlock) ∧ added = [] ∧
          staller = nodeStaller ∨
        ∃ best last common, after.pindexBestKnownBlock = some best ∧
          (state.pindexLastCommonBlock = some last ∨
            state.pindexLastCommonBlock = none ∧ last ∈ env.chainActive.vChain) ∧
          (env.AncestorOf common last ∧ env.AncestorOf common best ∧
            ∀ d, env.AncestorOf d last → env.AncestorOf d best → env.AncestorOf d common) ∧
          env.Fetched best common (count.toNat - vBlocks.length) added ∧
          (staller = nodeStaller ∨ staller = -1 ∨
            vBlocks ++ added = [] ∧ env.Stalled nodeid best common staller)) := by
  have built := reached.built
  have processed := filed.processBlockAvailability
  have sameCommon := PeerBlocks.processBlockAvailability_common env.tree.mapBlockIndex state
  unfold findNextBlocksToDownload
  by_cases zero : count = 0
  · rw [if_pos zero]
    exact ⟨state, [], nodeStaller, by rw [append_nil], (if_pos zero).symm,
      Or.inl ⟨Or.inl zero, rfl, rfl⟩⟩
  rw [if_neg zero, if_neg zero]
  dsimp only
  generalize state.processBlockAvailability env.tree.mapBlockIndex = state' at processed sameCommon ⊢
  have unchanged : { state' with pindexLastCommonBlock := state.pindexLastCommonBlock } = state' := by
    rw [← sameCommon]
  cases known : state'.pindexBestKnownBlock with
  | none =>
    refine ⟨state', [], nodeStaller, by rw [append_nil], unchanged,
      Or.inl ⟨Or.inr ?_, rfl, rfl⟩⟩
    intro hash same
    rw [known] at same
    cases same
  | some best =>
    have restored (common : Option UInt256) :
        { (⟨some best, state'.hashLastUnknownBlock, common⟩ : PeerBlocks) with
          pindexLastCommonBlock := state.pindexLastCommonBlock } = state' := by
      rw [← sameCommon, ← known]
    have filedBest := processed.best best known
    obtain ⟨tip, top⟩ : ∃ tip, env.chainActive.tip = some tip :=
      ⟨_, List.getLast?_eq_some_getLast nonempty⟩
    dsimp only
    rw [top, bind_some]
    split
    · rename_i less
      refine ⟨state', [], nodeStaller, by rw [append_nil], unchanged,
        Or.inl ⟨Or.inr ?_, rfl, rfl⟩⟩
      intro hash same
      obtain rfl := Option.some.inj (known.symm.trans same)
      exact ⟨tip, top, less⟩
    obtain ⟨last, guess, source, filedLast⟩ : ∃ last, state'.pindexLastCommonBlock.or
        (env.chainActive.atHeight (min (env.heightOf best) env.chainActive.height)) = some last ∧
        (state.pindexLastCommonBlock = some last ∨
          state.pindexLastCommonBlock = none ∧ last ∈ env.chainActive.vChain) ∧
        last ∈ env.tree.mapBlockIndex.filed := by
      cases given : state'.pindexLastCommonBlock with
      | some last => exact ⟨last, rfl, Or.inl (sameCommon ▸ given), processed.common last given⟩
      | none =>
        have length := length_pos_iff.mpr nonempty
        have inside : (min (env.heightOf best : Int) env.chainActive.height).toNat <
            env.chainActive.vChain.length := by
          unfold CChain.height
          omega
        obtain ⟨pindex, found, -⟩ := linked.entry (List.getElem?_eq_getElem inside)
        refine ⟨_, ?_, Or.inr ⟨sameCommon ▸ given, getElem_mem inside⟩, pindex, found⟩
        rw [none_or, CChain.atHeight, if_neg (by unfold CChain.height; omega),
          List.getElem?_eq_getElem inside]
    obtain ⟨common, result, meet⟩ := built.lastCommonAncestor_eq oneRoot filedLast filedBest
    have meets := And.intro meet.left (And.intro meet.right meet.highest)
    simp only [built.grounded.ancestor_iff] at meets
    rw [guess, bind_some, result, join_some, bind_some]
    split
    · rename_i whole
      refine ⟨⟨some best, state'.hashLastUnknownBlock, some common⟩, [], nodeStaller,
        by rw [append_nil], restored _, Or.inr ⟨best, last, common, rfl, source, meets,
          ⟨List.Pairwise.nil, fun hash member => absurd member not_mem_nil, Nat.zero_le _,
            fun hash fetchable => ?_⟩, Or.inl rfl⟩⟩
      have above := fetchable.above
      have below : env.heightOf hash ≤ env.heightOf best :=
        (built.grounded.ancestor_iff.mpr fetchable.branch).height_le
      rw [whole] at above
      omega
    · obtain ⟨s, added, searched, blocks, fetched, staller⟩ :=
        @searchFrom_found env nodeid count best common vBlocks nodeStaller built peers filedBest
          meet.right (room zero)
      rw [searched]
      exact ⟨⟨some best, state'.hashLastUnknownBlock, some s.pindexLastCommonBlock⟩, added,
        s.nodeStaller, by rw [map_some, blocks], restored _,
        Or.inr ⟨best, last, common, rfl, source, meets, fetched, staller⟩⟩

/-- A peer announced the last of three blocks, and the node has connected the first. -/
def threeBlocks : DownloadEnv where
  tree := .sampleTree
  chainActive := ⟨[1]⟩
  mapBlocksInFlight := ∅

theorem next_blocks_found_threeBlocks :
    ∃ after added staller, threeBlocks.findNextBlocksToDownload 0 16
      { pindexBestKnownBlock := some 3 } [] (-1) = some (after, [] ++ added, staller) ∧
      after.pindexBestKnownBlock = some 3 := by
  have linked : threeBlocks.chainActive.Linked threeBlocks.tree.mapBlockIndex := by
    refine ⟨fun {i hash} here => ?_⟩
    cases i with
    | zero =>
      obtain rfl := Option.some.inj here
      exact ⟨_, rfl, rfl, rfl⟩
    | succ i => cases here
  have filed : ({ pindexBestKnownBlock := some 3 } : PeerBlocks).Filed
      threeBlocks.tree.mapBlockIndex :=
    ⟨fun hash same => Option.some.inj same ▸ ⟨_, rfl⟩, nofun⟩
  obtain ⟨after, added, staller, run, kept, -⟩ := @next_blocks_found threeBlocks
    SkipTree.reached_sampleTree SkipTree.oneRoot_sampleTree linked (by decide) (fun _ => by
      exact nofun) 0 16 _ filed [] (fun _ => by decide) (-1)
  exact ⟨after, added, staller, run, congrArg PeerBlocks.pindexBestKnownBlock kept⟩

end DownloadEnv

end Esbcoin
