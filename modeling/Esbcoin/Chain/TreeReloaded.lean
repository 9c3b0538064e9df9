import Esbcoin.Chain.LoadBlockIndex

namespace Esbcoin

open IndexNode AssocMap BlockTree
open List

variable {c : StakeContext} {hasher : BlockHasher} {params : CChainParams} {genesis : CBlock}
  {map index : BlockMap} {tree tree' : BlockTree}

/-- An entry as `LoadBlockIndexGuts` leaves it. -/
def CBlockIndex.loaded (e : CBlockIndex) : CBlockIndex :=
  { e with
    nChainWork := 0
    nChainTx := 0
    nStakeModifierChecksum := 0
    hashProofOfStake := 0
    nSequenceId := 0 }

/-! ## The entries are found -/

/-- These entries are loaded; of the others some are there as the parent of one. -/
structure LoadedSome (map index : BlockMap) (keys : List UInt256) : Prop where
  done : ∀ hash ∈ keys, index.lookup hash = (map.lookup hash).map CBlockIndex.loaded
  rest : ∀ hash ∉ keys, index.lookup hash = none ∨
    index.lookup hash = some { phashBlock := some hash } ∧ map.contains hash = true

variable {hash : UInt256} {keys : List UInt256} {e : CBlockIndex}

theorem EntriesSound.ne_zero (sound : EntriesSound hasher map) (known : map.contains hash = true) :
    hash ≠ 0 := by
  obtain ⟨e, found⟩ := (AssocMap.contains_iff _ _).mp known
  rw [← sound.header found]
  exact hasher.nonzero _

/-- An entry of the tree is pointed at. -/
theorem LoadedSome.point (some : LoadedSome map index keys)
    (known : hash ≠ 0 → map.contains hash = true) :
    LoadedSome map (insertBlockIndex index hash).1 keys := by
  unfold insertBlockIndex
  by_cases zero : hash = 0
  · rw [if_pos zero]
    exact some
  rw [if_neg zero]
  replace known := known zero
  refine ⟨?_, ?_⟩
  · intro hash' member
    rw [lookup_insertNew]
    by_cases equal : hash' = hash
    · obtain ⟨e, found⟩ := (AssocMap.contains_iff _ _).mp known
      have own := some.done hash' member
      rw [if_pos equal, ← equal, own, equal, found, Option.map_some, Option.getD_some]
    · rw [if_neg equal]
      exact some.done hash' member
  intro hash' missing
  rw [lookup_insertNew]
  by_cases equal : hash' = hash
  · subst equal
    rw [if_pos rfl]
    rcases some.rest hash' missing with absent | ⟨pointed, -⟩
    · rw [absent]
      exact Or.inr ⟨rfl, known⟩
    · rw [pointed]
      exact Or.inr ⟨rfl, known⟩
  · rw [if_neg equal]
    exact some.rest hash' missing

theorem contains_insertBlockIndex (index : BlockMap) (nonzero : hash ≠ 0) :
    (insertBlockIndex index hash).1.contains hash = true := by
  unfold insertBlockIndex
  rw [if_neg nonzero, contains_insertNew, decide_eq_true rfl, Bool.true_or]

theorem covers_insertBlockIndex (index : BlockMap) (hash : UInt256) :
    AssocMap.Covers (insertBlockIndex index hash).1 index := by
  intro hash' known
  unfold insertBlockIndex
  split
  · exact known
  · rw [contains_insertNew, known, Bool.or_true]

/-- The pointer to a parent is found again, and so is that there is none. -/
theorem insertBlockIndex_pprev (sound : EntriesSound hasher map) (found : map.lookup hash = some e)
    (index : BlockMap) : (insertBlockIndex index (e.pprev.getD 0)).2 = e.pprev := by
  cases parent : e.pprev with
  | none => exact congrArg Prod.snd (if_pos rfl)
  | some hashPrev =>
    obtain ⟨p, foundPrev, -⟩ := sound.grounded.wellFormed.parent found parent
    have nonzero := sound.ne_zero ((AssocMap.contains_iff _ _).mpr ⟨p, foundPrev⟩)
    exact congrArg Prod.snd (if_neg nonzero)

section

variable (network : NetworkParams params)
include network

theorem NetworkParams.checkProofOfWork (hash : UInt256) (nBits : UInt32) :
    checkProofOfWork params hash nBits = true := by
  cases network <;> rfl

/-- The value of one more entry is read. -/
theorem LoadedSome.loadEntry (sound : EntriesSound hasher map) (some : LoadedSome map index keys)
    (found : map.lookup hash = .some e) (new : hash ∉ keys) :
    ∃ index', BlockTree.loadEntry hasher params index (CDiskBlockIndex.ofIndex e).serialize =
      .some index' ∧ LoadedSome map index' (hash :: keys) := by
  have own : map.contains hash = true := (AssocMap.contains_iff _ _).mpr ⟨e, found⟩
  have storable : (CDiskBlockIndex.ofIndex e).Storable := sound.storable found
  have read := CDiskBlockIndex.unserialize_serialize storable []
  rw [append_nil] at read
  have header : hasher.hash (CDiskBlockIndex.ofIndex e).stored.header = hash := sound.header found
  unfold BlockTree.loadEntry
  rw [read]
  dsimp only
  rw [header, show (CDiskBlockIndex.ofIndex e).stored.hashPrev = e.pprev.getD 0 from rfl,
    show (CDiskBlockIndex.ofIndex e).stored.hashNext = 0 from rfl,
    insertBlockIndex_pprev sound found]
  -- The entry, its parent and the block 0 behind it are pointed at.
  generalize pointed : (insertBlockIndex (insertBlockIndex (insertBlockIndex index hash).1
    (e.pprev.getD 0)).1 0).1 = index'
  have some' : LoadedSome map index' keys := by
    rw [← pointed]
    refine ((some.point fun _ => own).point fun nonzero => ?_).point fun zero => absurd rfl zero
    cases parent : e.pprev with
    | none =>
      rw [parent] at nonzero
      exact absurd rfl nonzero
    | some hashPrev =>
      obtain ⟨p, foundPrev, -⟩ := sound.grounded.wellFormed.parent found parent
      exact (AssocMap.contains_iff _ _).mpr ⟨p, foundPrev⟩
  have pointedAt : index'.lookup hash = .some { phashBlock := .some hash } := by
    have there : index'.contains hash = true := by
      rw [← pointed]
      exact covers_insertBlockIndex _ _ _ (covers_insertBlockIndex _ _ _
        (contains_insertBlockIndex index (sound.ne_zero own)))
    rcases some'.rest hash new with absent | ⟨pointed, -⟩
    · rw [AssocMap.contains, absent] at there
      cases there
    · exact pointed
  rw [pointedAt]
  dsimp only
  rw [network.checkProofOfWork, Bool.not_true, Bool.and_false, if_neg Bool.false_ne_true]
  refine ⟨_, rfl, ?_, ?_⟩
  · intro hash' member
    rw [lookup_insert_eq]
    by_cases equal : hash' = hash
    · rw [if_pos equal, equal, found, Option.map_some, ← sound.grounded.wellFormed.filed found]
      rfl
    · rw [if_neg equal]
      exact some'.done hash' ((mem_cons.mp member).resolve_left equal)
  · intro hash' missing
    rw [mem_cons, not_or] at missing
    rw [lookup_insert_eq, if_neg missing.1]
    exact some'.rest hash' missing.2

/-- The values of several entries are read. -/
theorem LoadedSome.foldlM (sound : EntriesSound hasher map)
    {entries : List (Sigma fun _ : UInt256 => CBlockIndex)} (some : LoadedSome map index keys)
    (found : ∀ entry ∈ entries, map.lookup entry.1 = .some entry.2)
    (nodup : (entries.map Sigma.fst).Nodup) (new : ∀ entry ∈ entries, entry.1 ∉ keys) :
    ∃ index' keys', (entries.map fun entry =>
        (CDiskBlockIndex.ofIndex entry.2).serialize).foldlM
          (BlockTree.loadEntry hasher params) index = .some index' ∧
      LoadedSome map index' keys' ∧ (∀ entry ∈ entries, entry.1 ∈ keys') ∧ keys ⊆ keys' := by
  induction entries generalizing index keys with
  | nil => exact ⟨index, keys, rfl, some, fun _ member => (nomatch member), List.Subset.refl _⟩
  | cons entry entries ih =>
    obtain ⟨own, nodup⟩ := nodup_cons.mp nodup
    obtain ⟨index', read, some'⟩ := some.loadEntry network sound
      (found entry mem_cons_self) (new entry mem_cons_self)
    obtain ⟨index'', keys', rest, some'', members, kept⟩ := ih some'
      (fun entry' member => found entry' (mem_cons_of_mem _ member)) nodup
      (fun entry' member known => (mem_cons.mp known).elim
        (fun same => own (same ▸ mem_map_of_mem member))
        (new entry' (mem_cons_of_mem _ member)))
    refine ⟨index'', keys', ?_, some'', ?_, fun hash member =>
      kept (mem_cons_of_mem _ member)⟩
    · rw [map_cons, foldlM_cons, read]
      exact rest
    intro entry' member
    rcases mem_cons.mp member with rfl | later
    · exact kept mem_cons_self
    · exact members entry' later

/-- All values are read, in any order. -/
theorem loadBlockIndexGuts_save (sound : EntriesSound hasher tree.mapBlockIndex)
    {values : List (List UInt8)} (saved : values.Perm tree.save) :
    ∃ index, loadBlockIndexGuts hasher params values = some index ∧
      ∀ hash, index.lookup hash = (tree.mapBlockIndex.lookup hash).map CBlockIndex.loaded := by
  obtain ⟨entries, rfl, perm⟩ := (congrFun (congrFun (eq_map_comp_perm _) values)
    tree.mapBlockIndex.entries).mpr saved
  have start : LoadedSome tree.mapBlockIndex ∅ [] :=
    ⟨fun hash member => (nomatch member), fun hash _ => Or.inl (AList.lookup_empty hash)⟩
  obtain ⟨index, keys, read, some, members, -⟩ := start.foldlM network sound
    (fun entry member => AList.mem_lookup_iff.mpr (perm.subset member))
    ((perm.map Sigma.fst).nodup_iff.mpr tree.mapBlockIndex.nodupKeys)
    (fun entry _ => not_mem_nil)
  refine ⟨index, read, fun hash => ?_⟩
  by_cases done : hash ∈ keys
  · exact some.done hash done
  have missing : tree.mapBlockIndex.lookup hash = .none := by
    cases found : tree.mapBlockIndex.lookup hash with
    | none => rfl
    | some e =>
      have member : ⟨hash, e⟩ ∈ tree.mapBlockIndex.entries := AList.mem_lookup_iff.mp found
      exact absurd (members _ (perm.symm.subset member)) done
  rcases some.rest hash done with absent | ⟨-, known⟩
  · rw [absent, missing]
    rfl
  · rw [AssocMap.contains, missing] at known
    cases known

end

/-! ## Work and count are computed again -/

/-- The parent without which the block of an entry cannot be connected. -/
def BlockMap.waitsFor (map : BlockMap) (e : CBlockIndex) : Option UInt256 :=
  if e.nStatus.haveData then
    match e.pprev, map.deref e.pprev with
    | some hashPrev, some pprev => if pprev.nChainTx = 0 then some hashPrev else none
    | _, _ => none
  else none

theorem waitsFor_eq_some_iff {hashPrev : UInt256} :
    map.waitsFor e = some hashPrev ↔ e.pprev = some hashPrev ∧ e.nStatus.haveData = true ∧
      ∃ p, map.lookup hashPrev = some p ∧ p.nChainTx = 0 := by
  unfold BlockMap.waitsFor
  cases data : e.nStatus.haveData with
  | false => simp
  | true =>
    cases parent : e.pprev with
    | none => simp
    | some hashPrev' =>
      rw [show map.deref (some hashPrev') = map.lookup hashPrev' from rfl]
      cases found : map.lookup hashPrev' with
      | none =>
        simp only [if_true, reduceCtorEq, false_iff, not_and]
        rintro same - ⟨p, foundP, -⟩
        rw [← Option.some.inj same, found] at foundP
        cases foundP
      | some p =>
        simp only [if_true]
        constructor
        · intro waits
          by_cases zero : p.nChainTx = 0
          · rw [if_pos zero] at waits
            exact ⟨waits, trivial, p, Option.some.inj waits ▸ found, zero⟩
          · rw [if_neg zero] at waits
            cases waits
        · rintro ⟨same, -, p', foundP, zero⟩
          rw [← Option.some.inj same, found] at foundP
          rw [Option.some.inj foundP, if_pos zero, same]

/-- The block of an entry may become the tip. -/
def CBlockIndex.CanBeTip (e : CBlockIndex) : Prop :=
  e.nStatus.isValid BLOCK_VALID_TRANSACTIONS = true ∧ e.nChainTx ≠ 0

instance (e : CBlockIndex) : Decidable e.CanBeTip := inferInstanceAs (Decidable (_ ∧ _))

theorem reload_eq {pprev : Option UInt256} {nChainTx : Nat} (prev : e.pprev = pprev)
    (count : e.nChainTx = nChainTx) :
    { e.loaded with pprev, nChainWork := e.nChainWork, nChainTx } = reload e := by
  subst prev count
  rfl

/-- The count of an entry whose parent has had its turn. -/
theorem countEntry_eq (sound : TreeSound hasher tree)
    (found : tree.mapBlockIndex.lookup hash = some e) (parent : tree'.mapBlockIndex.deref e.pprev =
      (tree.mapBlockIndex.deref e.pprev).map reload) :
    tree'.countEntry hash { e.loaded with nChainWork := e.nChainWork } =
      (reload e, tree'.mapBlocksUnlinked ++
        ((tree.mapBlockIndex.waitsFor e).map fun hashPrev => (hashPrev, hash)).toList) := by
  have count := sound.queued.counted found not_mem_nil
  unfold BlockMap.chainTx at count
  unfold countEntry BlockMap.waitsFor
  rw [show e.loaded.pprev = e.pprev from rfl, parent, show e.loaded.nStatus = e.nStatus from rfl]
  cases data : e.nStatus.haveData with
  | false =>
    rw [data, if_neg Bool.false_ne_true] at count
    rw [if_neg Bool.false_ne_true, if_neg Bool.false_ne_true, ← reload_eq rfl count]
    exact congrArg _ (append_nil _).symm
  | true =>
    rw [data, if_pos rfl] at count
    cases prev : e.pprev with
    | none =>
      rw [prev] at count
      exact Prod.ext (reload_eq prev count) (append_nil _).symm
    | some hashPrev =>
      obtain ⟨p, foundP, -⟩ := sound.entries.grounded.wellFormed.parent found prev
      have deref : tree.mapBlockIndex.deref (some hashPrev) = some p := foundP
      rw [prev, deref] at count
      rw [deref, Option.map_some]
      dsimp only at count ⊢
      by_cases zero : p.nChainTx = 0
      · have zero' : ¬ (reload p).nChainTx ≠ 0 := not_not_intro zero
        rw [if_pos zero] at count
        rw [if_neg zero', if_pos zero]
        exact Prod.ext (reload_eq prev count) rfl
      have zero' : (reload p).nChainTx ≠ 0 := zero
      rw [if_neg zero] at count
      rw [if_pos zero', if_neg zero]
      exact Prod.ext (reload_eq prev count) (append_nil _).symm

/-- A root is counted as soon as it is valid. -/
theorem canBeTip_iff (sound : TreeSound hasher tree)
    (found : tree.mapBlockIndex.lookup hash = some e) :
    (e.nStatus.isValid BLOCK_VALID_TRANSACTIONS && (e.nChainTx != 0 || e.pprev.isNone)) = true ↔
      e.CanBeTip := by
  rw [Bool.and_eq_true, Bool.or_eq_true, bne_iff_ne]
  refine and_congr_right fun valid => or_iff_left_of_imp fun root => ?_
  have filled := sound.entries.filled found
  have level : BLOCK_VALID_TRANSACTIONS ≤ e.nStatus.valid := by
    exact of_decide_eq_true (Bool.and_eq_true_iff.mp valid).2
  have data := filled.valid.mpr level
  rw [sound.queued.counted found not_mem_nil]
  unfold BlockMap.chainTx
  rw [if_pos data, Option.isNone_iff_eq_none.mp root]
  exact filled.some data

/-- What a turn of the loop does, for an entry whose parent has had its turn. -/
theorem loadStep_eq (sound : TreeSound hasher tree)
    (found : tree.mapBlockIndex.lookup hash = some e)
    (own : tree'.mapBlockIndex.lookup hash = some e.loaded)
    (parent : tree'.mapBlockIndex.deref e.pprev =
      (tree.mapBlockIndex.deref e.pprev).map reload) :
    tree'.loadStep hash = { tree' with
      mapBlockIndex := tree'.mapBlockIndex.insert hash (reload e)
      mapBlocksUnlinked := tree'.mapBlocksUnlinked ++
        ((tree.mapBlockIndex.waitsFor e).map fun hashPrev => (hashPrev, hash)).toList
      setBlockIndexCandidates :=
        if e.CanBeTip then insert hash tree'.setBlockIndexCandidates
        else tree'.setBlockIndexCandidates } := by
  have work : ((tree'.mapBlockIndex.deref e.loaded.pprev).map CBlockIndex.nChainWork).getD 0 +
      getBlockProof e.loaded.nBits = e.nChainWork := by
    rw [show e.loaded.pprev = e.pprev from rfl, parent, Option.map_map, sound.entries.work found]
    rfl
  unfold loadStep
  rw [own]
  dsimp only
  rw [work, countEntry_eq sound found parent]
  rw [show (reload e).nStatus = e.nStatus from rfl,
    show (reload e).nChainTx = e.nChainTx from rfl,
    show (reload e).pprev = e.pprev from rfl,
    if_congr (canBeTip_iff sound found) rfl rfl]

/-- These entries have had their turn. -/
structure Rebuilt (tree tree' : BlockTree) (keys : List UInt256) : Prop where
  done : ∀ hash ∈ keys, tree'.mapBlockIndex.lookup hash =
    (tree.mapBlockIndex.lookup hash).map reload
  rest : ∀ hash ∉ keys, tree'.mapBlockIndex.lookup hash =
    (tree.mapBlockIndex.lookup hash).map CBlockIndex.loaded
  nodup : tree'.mapBlocksUnlinked.Nodup
  unlinked : ∀ hashPrev hash, (hashPrev, hash) ∈ tree'.mapBlocksUnlinked ↔ hash ∈ keys ∧
    ∃ e, tree.mapBlockIndex.lookup hash = some e ∧ tree.mapBlockIndex.waitsFor e = some hashPrev
  candidate : ∀ hash, hash ∈ tree'.setBlockIndexCandidates ↔ hash ∈ keys ∧
    ∃ e, tree.mapBlockIndex.lookup hash = some e ∧ e.CanBeTip
  noTip : tree'.tip = none

/-- One turn. -/
theorem Rebuilt.step (sound : TreeSound hasher tree) {keys : List UInt256}
    (rebuilt : Rebuilt tree tree' keys) {hash : UInt256} {e : CBlockIndex}
    (found : tree.mapBlockIndex.lookup hash = some e) (new : hash ∉ keys)
    (parent : ∀ hashPrev, e.pprev = some hashPrev → hashPrev ∈ keys) :
    Rebuilt tree (tree'.loadStep hash) (hash :: keys) := by
  have own : tree'.mapBlockIndex.lookup hash = some e.loaded := by
    rw [rebuilt.rest hash new, found]
    rfl
  have parents : tree'.mapBlockIndex.deref e.pprev =
      (tree.mapBlockIndex.deref e.pprev).map reload := by
    cases prev : e.pprev with
    | none => rfl
    | some hashPrev => exact rebuilt.done hashPrev (parent hashPrev prev)
  have only : ∀ {hash' : UInt256} {P : CBlockIndex → Prop}, hash' = hash →
      ((∃ f, tree.mapBlockIndex.lookup hash' = some f ∧ P f) ↔ P e) := by
    rintro hash' P rfl
    constructor
    · rintro ⟨f, foundF, holds⟩
      exact Option.some.inj (found.symm.trans foundF) ▸ holds
    · exact fun holds => ⟨e, found, holds⟩
  rw [loadStep_eq sound found own parents]
  refine ⟨?_, ?_, ?_, ?_, ?_, rebuilt.noTip⟩
  · intro hash' member
    rw [lookup_insert_eq]
    by_cases equal : hash' = hash
    · rw [if_pos equal, equal, found]
      rfl
    · rw [if_neg equal]
      exact rebuilt.done hash' ((mem_cons.mp member).resolve_left equal)
  · intro hash' missing
    rw [mem_cons, not_or] at missing
    rw [lookup_insert_eq, if_neg missing.1]
    exact rebuilt.rest hash' missing.2
  · refine List.Nodup.append rebuilt.nodup ?_ ?_
    · cases tree.mapBlockIndex.waitsFor e with
      | none => exact nodup_nil
      | some hashPrev => exact nodup_singleton _
    rintro ⟨hashPrev, hash'⟩ before now
    obtain ⟨hashPrev', -, same⟩ := Option.map_eq_some_iff.mp (Option.mem_toList.mp now)
    obtain ⟨-, rfl⟩ := Prod.mk.inj same
    exact new ((rebuilt.unlinked _ _).mp before).1
  · intro hashPrev hash'
    rw [mem_append, rebuilt.unlinked, mem_cons, Option.mem_toList, Option.map_eq_some_iff]
    by_cases equal : hash' = hash
    · rw [only equal, equal, and_iff_right (Or.inl rfl)]
      refine Iff.trans (or_iff_right fun before => new before.1) ⟨?_, fun waits => ?_⟩
      · rintro ⟨hashPrev', waits, same⟩
        exact (Prod.mk.inj same).1 ▸ waits
      · exact ⟨hashPrev, waits, rfl⟩
    · rw [or_iff_right equal]
      refine or_iff_left ?_
      rintro ⟨hashPrev', -, same⟩
      exact equal (Prod.mk.inj same).2.symm
  · intro hash'
    have split : hash' ∈ (if e.CanBeTip then insert hash tree'.setBlockIndexCandidates
        else tree'.setBlockIndexCandidates) ↔
        hash' = hash ∧ e.CanBeTip ∨ hash' ∈ tree'.setBlockIndexCandidates := by
      by_cases can : e.CanBeTip
      · rw [if_pos can, Finset.mem_insert, and_iff_left can]
      · rw [if_neg can, or_iff_right fun both => can both.2]
    refine split.trans ?_
    rw [rebuilt.candidate, mem_cons]
    by_cases equal : hash' = hash
    · rw [only equal, equal, and_iff_right rfl, and_iff_right (Or.inl rfl)]
      exact or_iff_left fun before => new before.1
    · rw [or_iff_right equal, or_iff_right fun both => equal both.1]

/-- All turns, parents first. -/
theorem Rebuilt.foldl (sound : TreeSound hasher tree) {rest : List UInt256}
    (rebuilt : Rebuilt tree tree' keys) (nodup : rest.Nodup) (new : ∀ hash ∈ rest, hash ∉ keys)
    (rising : rest.Pairwise fun a b => ∀ e f, tree.mapBlockIndex.lookup a = some e →
      tree.mapBlockIndex.lookup b = some f → e.nHeight ≤ f.nHeight)
    (all : ∀ hash, tree.mapBlockIndex.contains hash = true ↔ hash ∈ rest ∨ hash ∈ keys) :
    ∃ keys', Rebuilt tree (rest.foldl loadStep tree') keys' ∧
      ∀ hash, tree.mapBlockIndex.contains hash = true ↔ hash ∈ keys' := by
  induction rest generalizing tree' keys with
  | nil => exact ⟨keys, rebuilt, fun hash => (all hash).trans (or_iff_right not_mem_nil)⟩
  | cons hash rest ih =>
    obtain ⟨own, nodup⟩ := nodup_cons.mp nodup
    obtain ⟨lowest, rising⟩ := pairwise_cons.mp rising
    obtain ⟨e, found⟩ := (AssocMap.contains_iff _ _).mp
      ((all hash).mpr (Or.inl mem_cons_self))
    have parent : ∀ hashPrev, e.pprev = some hashPrev → hashPrev ∈ keys := by
      intro hashPrev prev
      obtain ⟨p, foundP, height⟩ := sound.entries.grounded.wellFormed.parent found prev
      rcases (all hashPrev).mp ((AssocMap.contains_iff _ _).mpr ⟨p, foundP⟩) with later | before
      · rcases mem_cons.mp later with same | behind
        · exact absurd same (sound.entries.grounded.wellFormed.ne_pprev found prev)
        · have := lowest hashPrev behind e p found foundP
          omega
      · exact before
    refine ih (rebuilt.step sound found (new hash mem_cons_self) parent) nodup ?_ rising ?_
    · intro hash' member known
      rcases mem_cons.mp known with same | before
      · exact own (same ▸ member)
      · exact new hash' (mem_cons_of_mem _ member) before
    · intro hash'
      rw [all, mem_cons, mem_cons, or_assoc, or_left_comm]

theorem sortedByHeight_rising (index : BlockMap) (address : UInt256 → Nat) :
    (sortedByHeight index address).Pairwise fun a b => ∀ e f,
      index.lookup a = some e → index.lookup b = some f → e.nHeight ≤ f.nHeight := by
  have total : Std.Total fun a b : UInt256 =>
      beforeByHeight index address a b = true := by
    refine ⟨fun a b => ?_⟩
    simp only [beforeByHeight, Bool.or_eq_true, Bool.and_eq_true, decide_eq_true_eq,
      beq_iff_eq]
    omega
  have trans : IsTrans UInt256 fun a b => beforeByHeight index address a b = true := by
    refine ⟨fun a b c => ?_⟩
    simp only [beforeByHeight, Bool.or_eq_true, Bool.and_eq_true, decide_eq_true_eq,
      beq_iff_eq]
    omega
  refine (pairwise_insertionSort (fun a b : UInt256 =>
    beforeByHeight index address a b = true) index.keys).imp ?_
  intro a b before e f foundA foundB
  simp only [beforeByHeight, foundA, foundB, Option.map_some, Option.getD_some,
    Bool.or_eq_true, Bool.and_eq_true, decide_eq_true_eq, beq_iff_eq] at before
  omega

/-! ## The tree of the next process -/

/-- The entries of a sound tree, without what is only in memory, are sound. -/
theorem EntriesSound.reloaded (sound : EntriesSound hasher map)
    (same : ∀ hash, index.lookup hash = (map.lookup hash).map reload) :
    EntriesSound hasher index := by
  have back : ∀ {hash e}, index.lookup hash = some e →
      ∃ f, map.lookup hash = some f ∧ e = reload f := by
    intro hash e found
    rw [same] at found
    obtain ⟨f, foundF, rfl⟩ := Option.map_eq_some_iff.mp found
    exact ⟨f, foundF, rfl⟩
  have tree : BlockMap.SameTree map index := by
    intro hash
    rw [same, Option.map_map]
    rfl
  refine ⟨⟨sound.grounded.wellFormed.of_sameTree tree, ?_⟩, ?_, ?_, ?_, ?_⟩
  · intro hash e found
    obtain ⟨f, foundF, rfl⟩ := back found
    have height := sound.grounded.height foundF
    exact height
  · intro hash e found
    obtain ⟨f, foundF, rfl⟩ := back found
    show hasher.hash (CDiskBlockIndex.ofIndex f).header = hash
    exact sound.header foundF
  · intro hash e found
    obtain ⟨f, foundF, rfl⟩ := back found
    obtain ⟨height, file, valid, mint, supply, version, noFile, noData, noUndo, noStake⟩ :=
      sound.storable foundF
    exact ⟨height, file, valid, mint, supply, version, noFile, noData, noUndo, noStake⟩
  · intro hash e found
    obtain ⟨f, foundF, rfl⟩ := back found
    have work := sound.work foundF
    unfold BlockMap.chainWork at work ⊢
    have parents : index.deref f.pprev = (map.deref f.pprev).map reload := by
      cases f.pprev with
      | none => rfl
      | some hashPrev => exact same hashPrev
    rw [show (reload f).pprev = f.pprev from rfl, parents, Option.map_map]
    exact work
  · intro hash e found
    obtain ⟨f, foundF, rfl⟩ := back found
    obtain ⟨valid, data, some⟩ := sound.filled foundF
    exact ⟨valid, data, some⟩

theorem Rebuilt.sound (sound : TreeSound hasher tree) (rebuilt : Rebuilt tree tree' keys)
    (all : ∀ hash, tree.mapBlockIndex.contains hash = true ↔ hash ∈ keys) :
    (∀ hash, tree'.mapBlockIndex.lookup hash =
      (tree.mapBlockIndex.lookup hash).map reload) ∧ TreeSound hasher tree' := by
  have same : ∀ hash, tree'.mapBlockIndex.lookup hash =
      (tree.mapBlockIndex.lookup hash).map reload := by
    intro hash
    by_cases done : hash ∈ keys
    · exact rebuilt.done hash done
    have missing : tree.mapBlockIndex.lookup hash = none :=
      (contains_eq_false_iff _ _).mp
        (Bool.eq_false_iff.mpr fun known => done ((all hash).mp known))
    rw [rebuilt.rest hash done, missing]
    rfl
  have parents : ∀ p, tree'.mapBlockIndex.deref p =
      (tree.mapBlockIndex.deref p).map reload := by
    intro p
    cases p with
    | none => rfl
    | some hashPrev => exact same hashPrev
  refine ⟨same, sound.entries.reloaded same, ⟨⟨rebuilt.nodup, ?_⟩, nodup_nil, ?_, ?_⟩, ?_, ?_⟩
  · intro hashPrev hash
    rw [rebuilt.unlinked, ← all, AssocMap.contains_iff]
    constructor
    · rintro ⟨-, e, found, waits⟩
      obtain ⟨prev, data, p, foundP, zero⟩ := waitsFor_eq_some_iff.mp waits
      exact ⟨reload e, reload p, by rw [same, found]; rfl, prev, data,
        by rw [same, foundP]; rfl, zero⟩
    rintro ⟨e', p', found', prev, data, foundP', zero⟩
    rw [same] at found' foundP'
    obtain ⟨e, found, rfl⟩ := Option.map_eq_some_iff.mp found'
    obtain ⟨p, foundP, rfl⟩ := Option.map_eq_some_iff.mp foundP'
    exact ⟨⟨e, found⟩, e, found, waitsFor_eq_some_iff.mpr ⟨prev, data, p, foundP, zero⟩⟩
  · intro hash e' found' _
    rw [same] at found'
    obtain ⟨e, found, rfl⟩ := Option.map_eq_some_iff.mp found'
    have count := sound.queued.counted found not_mem_nil
    rw [show (reload e).nChainTx = e.nChainTx from rfl, count]
    refine chainTx_congr ?_ rfl rfl
    rw [show (reload e).pprev = e.pprev from rfl, parents, Option.map_map]
    rfl
  · intro hash member
    cases member
  · intro hash member
    obtain ⟨-, e, found, -, counted⟩ := (rebuilt.candidate hash).mp member
    exact ⟨reload e, by rw [same, found]; rfl, counted⟩
  · intro hash member
    rw [rebuilt.noTip] at member
    cases member

/-- The work and the place of a block are not behind those of the tip. -/
def BlockTree.NotBehindTip (tree : BlockTree) (address : UInt256 → Nat) (hash : UInt256)
    (e : CBlockIndex) : Prop :=
  ∀ tip ∈ tree.tip, ∀ t, tree.mapBlockIndex.lookup tip = some t → t.nChainWork < e.nChainWork ∨
    t.nChainWork = e.nChainWork ∧ address hash ≤ address tip

/-- What a process finds that holds its entries at `address`. -/
structure Reloaded (tree tree' : BlockTree) (address : UInt256 → Nat) : Prop where
  /-- The entries are those from before, but for the checksum, the proof hash and the number in
  which the block came. -/
  entry : ∀ hash, (tree'.mapBlockIndex.lookup hash).map reload =
    (tree.mapBlockIndex.lookup hash).map reload
  tip : tree'.tip = tree.tip
  candidate : ∀ hash, hash ∈ tree'.setBlockIndexCandidates ↔
    ∃ e, tree.mapBlockIndex.lookup hash = some e ∧ e.CanBeTip ∧ tree.NotBehindTip address hash e
  /-- No candidate with more work than the tip is lost that has not failed. -/
  kept : ∀ hash ∈ tree.setBlockIndexCandidates, ∀ e, tree.mapBlockIndex.lookup hash = some e →
    e.nStatus.failed = false →
    (∀ tip ∈ tree.tip, ∀ t, tree.mapBlockIndex.lookup tip = some t →
      t.nChainWork < e.nChainWork) → hash ∈ tree'.setBlockIndexCandidates

theorem address_loadStep (tree : BlockTree) (hash : UInt256) :
    (tree.loadStep hash).address = tree.address := by
  unfold loadStep
  split <;> rfl

theorem address_foldl (tree : BlockTree) (keys : List UInt256) :
    (keys.foldl loadStep tree).address = tree.address := by
  induction keys generalizing tree with
  | nil => rfl
  | cons hash keys ih => exact (ih _).trans (address_loadStep tree hash)

/-- The comparison of two entries that were just loaded. -/
theorem worse_reload (a b : CBlockIndex) (addressA addressB : Nat) :
    (reload a).worse (reload b) addressA addressB = false ↔
      b.nChainWork < a.nChainWork ∨ b.nChainWork = a.nChainWork ∧ addressA ≤ addressB := by
  unfold CBlockIndex.worse reload
  rw [if_neg (lt_irrefl 0), if_neg (lt_irrefl 0)]
  by_cases more : a.nChainWork > b.nChainWork
  · rw [if_pos more]
    exact ⟨fun _ => Or.inl more, fun _ => rfl⟩
  rw [if_neg more]
  by_cases less : a.nChainWork < b.nChainWork
  · rw [if_pos less]
    refine ⟨fun never => absurd never Bool.noConfusion, fun either => ?_⟩
    omega
  rw [if_neg less]
  by_cases before : addressA < addressB
  · rw [if_pos before]
    exact ⟨fun _ => Or.inr ⟨by omega, by omega⟩, fun _ => rfl⟩
  · rw [if_neg before, decide_eq_false_iff_not]
    omega

theorem TreeSound.canBeTip (sound : TreeSound hasher tree)
    (member : hash ∈ tree.setBlockIndexCandidates) (found : tree.mapBlockIndex.lookup hash = some e)
    (allowed : e.nStatus.failed = false) : e.CanBeTip := by
  obtain ⟨f, foundF, counted⟩ := sound.candidate hash member
  obtain rfl := Option.some.inj (found.symm.trans foundF)
  have data : e.nStatus.haveData = true := by
    rw [sound.queued.counted found not_mem_nil] at counted
    exact haveData_of_chainTx counted
  refine ⟨?_, counted⟩
  unfold BlockStatus.isValid
  rw [allowed, decide_eq_true ((sound.entries.filled found).valid.mp data)]
  rfl

/-- A start finds the tree, in whatever order the database gives the entries. -/
theorem TreeSound.restart (network : NetworkParams params) (sound : TreeSound hasher tree)
    {values : List (List UInt8)} (saved : values.Perm tree.save) (literal : UInt64)
    (address : UInt256 → Nat) :
    ∃ tree', loadBlockIndexDB hasher params values (tree.tip.getD 0) literal address =
      some tree' ∧ TreeSound hasher tree' ∧ Reloaded tree tree' address := by
  obtain ⟨index, read, loaded⟩ := loadBlockIndexGuts_save network sound.entries saved
  have start : Rebuilt tree ⟨⟨index, ∅, literal⟩, ∅, [], ∅, none, 1, address⟩ [] :=
    ⟨fun hash member => (nomatch member), fun hash _ => loaded hash, nodup_nil,
      fun hashPrev hash => ⟨fun member => (nomatch member), fun both => (nomatch both.1)⟩,
      fun hash => ⟨fun member => absurd member (Finset.notMem_empty hash),
        fun both => (nomatch both.1)⟩, rfl⟩
  have known : ∀ hash, tree.mapBlockIndex.contains hash = true ↔
      hash ∈ sortedByHeight index address := by
    intro hash
    unfold sortedByHeight
    rw [mem_insertionSort, ← AList.mem_keys, ← AList.lookup_isSome, loaded, Option.isSome_map]
    rfl
  have rising : (sortedByHeight index address).Pairwise fun a b => ∀ e f,
      tree.mapBlockIndex.lookup a = some e → tree.mapBlockIndex.lookup b = some f →
      e.nHeight ≤ f.nHeight := by
    refine (sortedByHeight_rising index address).imp fun {a b} rising e f foundE foundF => ?_
    have ordered := rising e.loaded f.loaded (by rw [loaded, foundE]; rfl)
      (by rw [loaded, foundF]; rfl)
    exact ordered
  have nodup : (sortedByHeight index address).Nodup :=
    (perm_insertionSort _ _).nodup_iff.mpr index.nodupKeys
  obtain ⟨keys, rebuilt, all⟩ := start.foldl sound nodup (fun hash _ => not_mem_nil) rising
    (fun hash => (known hash).trans (or_iff_left not_mem_nil).symm)
  obtain ⟨same, sound'⟩ := rebuilt.sound sound all
  have places := address_foldl ⟨⟨index, ∅, literal⟩, ∅, [], ∅, none, 1, address⟩
    (sortedByHeight index address)
  unfold loadBlockIndexDB
  rw [read]
  dsimp only
  generalize (sortedByHeight index address).foldl loadStep
    ⟨⟨index, ∅, literal⟩, ∅, [], ∅, none, 1, address⟩ = t at rebuilt same sound' places ⊢
  have entry : ∀ hash, (t.mapBlockIndex.lookup hash).map reload =
      (tree.mapBlockIndex.lookup hash).map reload := by
    intro hash
    rw [same, Option.map_map]
    rfl
  have candidates : ∀ hash, hash ∈ t.setBlockIndexCandidates ↔
      ∃ e, tree.mapBlockIndex.lookup hash = some e ∧ e.CanBeTip := by
    intro hash
    rw [rebuilt.candidate, ← all, AssocMap.contains_iff]
    exact and_iff_right_of_imp fun ⟨e, found, _⟩ => ⟨e, found⟩
  cases active : tree.tip with
  | none =>
    have noBlock : tree.mapBlockIndex.lookup 0 = none :=
      (contains_eq_false_iff _ _).mp
        (Bool.eq_false_iff.mpr fun known => sound.entries.ne_zero known rfl)
    have behind : ∀ hash e, tree.NotBehindTip address hash e := by
      intro hash e tip member
      rw [active] at member
      cases member
    rw [Option.getD_none, same, noBlock]
    refine ⟨t, rfl, sound', entry, rebuilt.noTip.trans active.symm, ?_, ?_⟩
    · intro hash
      rw [candidates]
      exact exists_congr fun e => and_congr_right fun _ => (and_iff_left (behind hash e)).symm
    · intro hash member e found allowed _
      exact (candidates hash).mpr ⟨e, found, sound.canBeTip member found allowed⟩
  | some tip =>
    obtain ⟨f, foundF⟩ := (AssocMap.contains_iff _ _).mp (sound.tip tip active)
    rw [Option.getD_some, same, foundF]
    have pruned : ∀ hash, hash ∈
        (pruneBlockIndexCandidates { t with tip := some tip }).setBlockIndexCandidates ↔
        ∃ e, tree.mapBlockIndex.lookup hash = some e ∧ e.CanBeTip ∧
          tree.NotBehindTip address hash e := by
      intro hash
      have compare : ∀ e, tree.mapBlockIndex.lookup hash = some e →
          ((!worseThanTip { t with tip := some tip } hash) = true ↔
            tree.NotBehindTip address hash e) := by
        intro e found
        unfold worseThanTip worse BlockTree.NotBehindTip
        dsimp only
        rw [same, found, same, foundF, Option.map_some, Option.map_some, places]
        rw [Bool.not_eq_true', worse_reload]
        constructor
        · intro notWorse tip' isTip t' foundT
          obtain rfl := Option.some.inj (active.symm.trans isTip)
          obtain rfl := Option.some.inj (foundF.symm.trans foundT)
          exact notWorse
        · exact fun notBehind => notBehind tip active f foundF
      unfold pruneBlockIndexCandidates
      rw [Finset.mem_filter, candidates]
      constructor
      · rintro ⟨⟨e, found, can⟩, notWorse⟩
        exact ⟨e, found, can, (compare e found).mp notWorse⟩
      · rintro ⟨e, found, can, notBehind⟩
        exact ⟨⟨e, found, can⟩, (compare e found).mpr notBehind⟩
    refine ⟨_, rfl, ?_, entry, active.symm, pruned, ?_⟩
    · have moved : TreeSound hasher { t with tip := some tip } := by
        refine ⟨sound'.entries, sound'.queued, sound'.candidate, ?_⟩
        intro hash isTip
        obtain rfl := Option.some.inj isTip
        exact (AssocMap.contains_iff _ _).mpr ⟨reload f, by rw [same, foundF]; rfl⟩
      exact moved.fewer (Finset.filter_subset _ _)
    · intro hash member e found allowed more
      exact (pruned hash).mpr ⟨e, found, sound.canBeTip member found allowed,
        fun tip' isTip t' foundT => Or.inl (more tip' isTip t' foundT)⟩

/-- Over all processes of a node. -/
theorem TreeReached.sound (network : NetworkParams params) (block : GenesisBlock hasher genesis)
    (reached : TreeReached c hasher params genesis tree) : TreeSound hasher tree := by
  induction reached with
  | init file literal address => exact TreeSound.init block file literal address
  | move _ move ih => exact ih.move move
  | restart _ active saved literal address loaded ih =>
    obtain ⟨tree', again, sound, -⟩ := ih.restart network saved literal address
    rw [active, Option.getD_some, loaded] at again
    exact Option.some.inj again ▸ sound

/-- A node that is started again finds the tree it had: the entries but for what is only in memory,
the tip, and for candidates the valid blocks that are not behind the tip. -/
theorem restart_keeps_tree (network : NetworkParams params) (block : GenesisBlock hasher genesis)
    (reached : TreeReached c hasher params genesis tree) {values : List (List UInt8)}
    (saved : values.Perm tree.save) (literal : UInt64) (address : UInt256 → Nat) :
    ∃ tree', loadBlockIndexDB hasher params values (tree.tip.getD 0) literal address =
      some tree' ∧ Reloaded tree tree' address := by
  obtain ⟨tree', loaded, -, reloaded⟩ :=
    (reached.sound network block).restart network saved literal address
  exact ⟨tree', loaded, reloaded⟩

/-! ## Two blocks with the same work -/

def nonceHasher : BlockHasher where
  hash header := BitVec.ofNat 256 (header.nNonce.toNat + 1)
  nonzero header := by
    intro zero
    have small := header.nNonce.toNat_lt
    have value := congrArg BitVec.toNat zero
    rw [BitVec.toNat_ofNat, Nat.mod_eq_of_lt (by omega)] at value
    exact absurd value (Nat.succ_ne_zero _)

/-- The hash of bytes has their sum, and one, in its highest word. -/
def summingStake : StakeContext where
  hash ss := BitVec.ofNat 256 ((ss.map UInt8.toNat).sum + 1) <<< 224
  modifierUpgradeBlock := 0

def sampleBlock (hashPrevBlock : UInt256) (nNonce : UInt32) : CBlock where
  nVersion := 1
  hashPrevBlock := hashPrevBlock
  hashMerkleRoot := 0
  nTime := 0
  nBits := 0x1d00ffff
  nNonce := nNonce
  hash := BitVec.ofNat 256 (nNonce.toNat + 1)
  vtx := [CTransaction.empty]

theorem sampleBlock_version (hashPrevBlock : UInt256) (nNonce : UInt32) :
    InTwosComplement 4 (sampleBlock hashPrevBlock nNonce).nVersion := by
  show InTwosComplement 4 1
  exact ⟨by decide, by decide⟩

theorem sampleBlock_genesis : GenesisBlock nonceHasher (sampleBlock 0 0) :=
  ⟨rfl, rfl, sampleBlock_version 0 0, cons_ne_nil _ _⟩

def acceptSample (tree : BlockTree) (block : CBlock) : BlockTree :=
  let tree := tree.addToBlockIndex summingStake block
  match tree.mapBlockIndex.lookup block.getHash with
  | none => tree
  | some pindex => tree.receivedBlockTransactions block ⟨0, 0⟩ pindex

/-- The block has not come yet, and its parent is not known to be invalid. -/
def acceptable (tree : BlockTree) (block : CBlock) : Bool :=
  let tree := tree.addToBlockIndex summingStake block
  match tree.mapBlockIndex.lookup block.getHash with
  | none => true
  | some pindex => !pindex.nStatus.haveData && !pindex.nStatus.failed &&
      ((tree.mapBlockIndex.deref pindex.pprev).map fun pprev => !pprev.nStatus.failed).getD true

theorem TreeReached.acceptSample
    (reached : TreeReached summingStake nonceHasher params genesis tree)
    {hashPrev : UInt256} {nNonce : UInt32}
    (parent : tree.mapBlockIndex.contains hashPrev = true)
    (new : acceptable tree (sampleBlock hashPrev nNonce) = true) :
    TreeReached summingStake nonceHasher params genesis
      (acceptSample tree (sampleBlock hashPrev nNonce)) := by
  have added : TreeReached summingStake nonceHasher params genesis
      (tree.addToBlockIndex summingStake (sampleBlock hashPrev nNonce)) :=
    reached.move (TreeMove.add rfl (sampleBlock_version hashPrev nNonce) parent)
  unfold Esbcoin.acceptSample
  unfold acceptable at new
  dsimp only at new ⊢
  cases found : (tree.addToBlockIndex summingStake
      (sampleBlock hashPrev nNonce)).mapBlockIndex.lookup
        (sampleBlock hashPrev nNonce).getHash with
  | none => exact added
  | some e =>
    rw [found] at new
    simp only [Bool.and_eq_true, Bool.not_eq_true'] at new
    obtain ⟨⟨first, allowed⟩, parentAllowed⟩ := new
    refine added.move (TreeMove.receive found first allowed ?_ (cons_ne_nil _ _) (le_refl 0))
    intro p foundP
    rw [foundP] at parentAllowed
    exact (Bool.not_eq_true' _).mp parentAllowed

def sampleRoot : BlockTree :=
  { BlockTree.init summingStake (sampleBlock 0 0) ⟨0, 0⟩ 0 BitVec.toNat with tip := some 1 }

def sampleChain : BlockTree :=
  pruneBlockIndexCandidates
    { acceptSample sampleRoot (sampleBlock 1 1) with tip := some 2 }

/-- A block beside the tip that came later. -/
def sampleTree : BlockTree := acceptSample sampleChain (sampleBlock 1 2)

theorem sampleTree_reached : TreeReached summingStake nonceHasher mainParams
    (sampleBlock 0 0) sampleTree := by
  have root : TreeReached summingStake nonceHasher mainParams (sampleBlock 0 0)
      sampleRoot := by
    refine (TreeReached.init (le_refl 0) 0 BitVec.toNat).move (TreeMove.setTip ?_)
    intro hash isTip
    obtain rfl := Option.some.inj isTip
    decide +kernel
  have above : TreeReached summingStake nonceHasher mainParams (sampleBlock 0 0)
      (acceptSample sampleRoot (sampleBlock 1 1)) :=
    root.acceptSample (by decide +kernel) (by decide +kernel)
  have chain : TreeReached summingStake nonceHasher mainParams (sampleBlock 0 0)
      sampleChain := by
    refine (above.move (TreeMove.setTip ?_)).move TreeMove.prune
    intro hash isTip
    obtain rfl := Option.some.inj isTip
    decide +kernel
  exact chain.acceptSample (by decide +kernel) (by decide +kernel)

/-- A process that holds later blocks at lower addresses. -/
def sampleAddress (hash : UInt256) : Nat := 10 - hash.toNat

/-- After a start the later block with the tip's work is a candidate, and the chain trust and the
checksum of the tip are gone. -/
theorem candidates_differ_after_restart :
    TreeReached summingStake nonceHasher mainParams (sampleBlock 0 0) sampleTree ∧
    ∃ tree', loadBlockIndexDB nonceHasher mainParams sampleTree.save
        (sampleTree.tip.getD 0) 0 sampleAddress = some tree' ∧
      tree'.setBlockIndexCandidates ≠ sampleTree.setBlockIndexCandidates ∧
      tree'.bnChainTrust.lookup 2 ≠ sampleTree.bnChainTrust.lookup 2 ∧
      (tree'.mapBlockIndex.lookup 2).map CBlockIndex.nStakeModifierChecksum ≠
        (sampleTree.mapBlockIndex.lookup 2).map CBlockIndex.nStakeModifierChecksum := by
  refine ⟨sampleTree_reached, ?_⟩
  have loaded : (loadBlockIndexDB nonceHasher mainParams sampleTree.save
      (sampleTree.tip.getD 0) 0 sampleAddress).map (fun tree' =>
        (tree'.setBlockIndexCandidates, tree'.bnChainTrust.lookup 2,
          (tree'.mapBlockIndex.lookup 2).map CBlockIndex.nStakeModifierChecksum)) =
      some ({2, 3}, none, some 0) := by
    decide +kernel
  obtain ⟨tree', found, fields⟩ := Option.map_eq_some_iff.mp loaded
  obtain ⟨candidates, fields⟩ := Prod.mk.inj fields
  obtain ⟨trust, checksum⟩ := Prod.mk.inj fields
  refine ⟨tree', found, ?_, ?_, ?_⟩
  · rw [candidates]
    decide +kernel
  · rw [trust]
    decide +kernel
  · rw [checksum]
    decide +kernel

/-- The tree of the example. -/
theorem restart_keeps_sampleTree :
    ∃ tree', loadBlockIndexDB nonceHasher mainParams sampleTree.save
      (sampleTree.tip.getD 0) 0 sampleAddress = some tree' ∧
      Reloaded sampleTree tree' sampleAddress :=
  restart_keeps_tree NetworkParams.main sampleBlock_genesis sampleTree_reached
    (List.Perm.refl _) 0 sampleAddress

end Esbcoin
