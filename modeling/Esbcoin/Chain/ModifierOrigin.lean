import Esbcoin.Chain.StakeModifier
import Mathlib.Data.List.Infix

namespace Esbcoin

open Bytes CBlockIndex List

/-! ## Entries that look alike -/

/-- What the computation of a modifier looks at. -/
structure CBlockIndex.Alike (e e' : CBlockIndex) : Prop where
  hash : e.getBlockHash = e'.getBlockHash
  time : e.nTime = e'.nTime
  stake : e.isProofOfStake = e'.isProofOfStake
  height : e.nHeight = e'.nHeight
  modifier : e.nStakeModifier = e'.nStakeModifier
  generated : e.generatedStakeModifier = e'.generatedStakeModifier

theorem CBlockIndex.Alike.refl (e : CBlockIndex) : e.Alike e := ⟨rfl, rfl, rfl, rfl, rfl, rfl⟩

variable {e' e : CBlockIndex} {hash : UInt256}

theorem CBlockIndex.Alike.blockTime (alike : e.Alike e') : e.getBlockTime = e'.getBlockTime := by
  rw [getBlockTime, getBlockTime, alike.time]

/-- The entries are filed under their hashes. -/
def Filed (mapBlockIndex : BlockMap) (chain : List CBlockIndex) : Prop :=
  ∀ e ∈ chain, mapBlockIndex.lookup e.getBlockHash = some e

variable {c : StakeContext} {map map' : BlockMap} {chain chain' : List CBlockIndex}

theorem getLastStakeModifier_congr (alike : List.Forall₂ CBlockIndex.Alike chain chain') :
    getLastStakeModifier chain = getLastStakeModifier chain' := by
  induction alike with
  | nil => rfl
  | cons head _ ih =>
    rw [getLastStakeModifier, getLastStakeModifier, head.generated, head.modifier, head.blockTime,
      ih]

theorem hashSelection_congr (alike : e.Alike e') (fModifierV2 : Bool) (nStakeModifierPrev : UInt64)
    :
    hashSelection c fModifierV2 nStakeModifierPrev e =
      hashSelection c fModifierV2 nStakeModifierPrev e' := by
  simp only [hashSelection, alike.hash, alike.stake]

/-- The same block is selected so far. -/
def SameBest : Option (UInt256 × CBlockIndex) → Option (UInt256 × CBlockIndex) → Prop :=
  Option.Rel fun best best' => best.1 = best'.1 ∧ best.2.Alike best'.2

theorem selectLoop_congr {items : List (Int × UInt256)}
    (known : ∀ item ∈ items, ∃ e e', map.lookup item.2 = some e ∧ map'.lookup item.2 = some e' ∧
      e.Alike e')
    (selected : List UInt256) (stop : Int) (prev : UInt64) (fModifierV2 : Option Bool)
    {best best' : Option (UInt256 × CBlockIndex)} (same : SameBest best best') :
    Option.Rel SameBest (selectLoop c map selected stop prev fModifierV2 best items)
      (selectLoop c map' selected stop prev fModifierV2 best' items) := by
  induction items generalizing fModifierV2 best best' with
  | nil => exact .some same
  | cons item items ih =>
    obtain ⟨⟨e, e', found, found', alike⟩, known⟩ := forall_mem_cons.mp known
    have isSome : best.isSome = best'.isSome := by
      cases same with
      | none => rfl
      | some => rfl
    rw [selectLoop, selectLoop, found, found']
    dsimp only
    rw [isSome, alike.blockTime, alike.height, alike.hash, hashSelection_congr alike]
    by_cases late : (best'.isSome && decide (stop < e'.getBlockTime)) = true
    · rw [if_pos late, if_pos late]
      exact .some same
    rw [if_neg late, if_neg late]
    by_cases taken : selected.contains e'.getBlockHash = true
    · rw [if_pos taken, if_pos taken]
      exact ih known _ same
    rw [if_neg taken, if_neg taken]
    apply ih known
    cases same with
    | none => exact .some ⟨rfl, alike⟩
    | @some a b inner =>
      obtain ⟨hash, pindex⟩ := a
      obtain ⟨hash', pindex'⟩ := b
      obtain ⟨rfl, like⟩ := inner
      dsimp only
      split
      · exact .some ⟨rfl, alike⟩
      · exact .some ⟨rfl, like⟩

theorem modifierRounds_congr {items : List (Int × UInt256)}
    (known : ∀ item ∈ items, ∃ e e', map.lookup item.2 = some e ∧ map'.lookup item.2 = some e' ∧
      e.Alike e')
    (prev : UInt64) (rounds : List Nat) (selected : List UInt256) (stop : Int) (new : UInt64) :
    modifierRounds c map items prev rounds selected stop new =
      modifierRounds c map' items prev rounds selected stop new := by
  induction rounds generalizing selected stop new with
  | nil => rfl
  | cons nRound rounds ih =>
    rw [modifierRounds, modifierRounds]
    have select := selectLoop_congr (c := c) known selected
      (stop + getStakeModifierSelectionIntervalSection nRound) prev none .none
    generalize selectLoop c map selected
      (stop + getStakeModifierSelectionIntervalSection nRound) prev none none items = result
        at select
    generalize selectLoop c map' selected
      (stop + getStakeModifierSelectionIntervalSection nRound) prev none none items = result'
        at select
    cases select with
    | none => rfl
    | some same =>
      cases same with
      | none => rfl
      | @some a b inner =>
        obtain ⟨hash, pindex⟩ := a
        obtain ⟨hash', pindex'⟩ := b
        dsimp only at inner ⊢
        rw [getStakeEntropyBit, getStakeEntropyBit, inner.2.hash]
        exact ih _ _ _

section

variable (alike : List.Forall₂ CBlockIndex.Alike chain chain')
include alike

theorem candidates_congr (start : Int) :
    ((chain.takeWhile fun e => start ≤ e.getBlockTime).map fun e =>
        (e.getBlockTime, e.getBlockHash)) =
      (chain'.takeWhile fun e => start ≤ e.getBlockTime).map fun e =>
        (e.getBlockTime, e.getBlockHash) := by
  induction alike with
  | nil => rfl
  | cons head _ ih =>
    rw [takeWhile_cons, takeWhile_cons, head.blockTime]
    split
    · rw [map_cons, map_cons, head.blockTime, head.hash, ih]
    · rfl

theorem known_of_alike (filed : Filed map chain) (filed' : Filed map' chain') (member : e ∈ chain) :
    ∃ f f', map.lookup e.getBlockHash = some f ∧ map'.lookup e.getBlockHash = some f' ∧
      f.Alike f' := by
  induction alike with
  | nil => cases member
  | @cons a b _ _ head _ ih =>
    obtain ⟨first, rest⟩ := forall_mem_cons.mp filed
    obtain ⟨first', rest'⟩ := forall_mem_cons.mp filed'
    rcases mem_cons.mp member with rfl | member
    · exact ⟨e, b, first, head.hash ▸ first', head⟩
    · exact ih rest rest' member

/-- Chains that look alike have the same next modifier; the address counts above genesis only. -/
theorem computeNextStakeModifier_congr (filed : Filed map chain) (filed' : Filed map' chain')
    {literal literal' : UInt64}
    (same : (∀ e, chain.head? = some e → e.nHeight = 0) → literal = literal') :
    computeNextStakeModifier c map literal chain =
      computeNextStakeModifier c map' literal' chain' := by
  have last := getLastStakeModifier_congr alike
  have candidates := candidates_congr alike
  have known := fun e => known_of_alike (e := e) alike filed filed'
  cases alike with
  | nil => rfl
  | @cons a b as bs head tail =>
    rw [computeNextStakeModifier, computeNextStakeModifier, ← head.height]
    by_cases first : a.nHeight = 0
    · rw [if_pos first, if_pos first, same]
      intro e found
      rw [← Option.some.inj found]
      exact first
    rw [if_neg first, if_neg first, ← last]
    cases getLastStakeModifier (a :: as) with
    | none => rfl
    | some result =>
      obtain ⟨nStakeModifier, nModifierTime⟩ := result
      dsimp only
      rw [← head.blockTime]
      split
      · rfl
      rw [← candidates]
      rw [modifierRounds_congr]
      intro item member
      rw [mem_mergeSort, mem_reverse, mem_map] at member
      obtain ⟨e, member, rfl⟩ := member
      exact known e ((takeWhile_sublist _).subset member)

end

/-! ## Chains in an index -/

/-- An index whose entries hang together, from height 0 on. -/
structure Grounded (map : BlockMap) : Prop where
  wellFormed : map.WellFormed
  height : ∀ {hash e}, map.lookup hash = some e → 0 ≤ e.nHeight

/-- The entries behind one. -/
def behind (map : BlockMap) (e : CBlockIndex) : List CBlockIndex :=
  match e.pprev with
  | none => []
  | some hashPrev => map.chain hashPrev

section

variable (grounded : Grounded map)
include grounded

theorem chain_of_lookup (found : map.lookup hash = some e) :
    map.chain hash = e :: behind map e := by
  rw [BlockMap.chain, found]
  unfold behind
  cases prev : e.pprev with
  | none =>
    dsimp only
    rw [grounded.wellFormed.root found prev]
    rfl
  | some hashPrev =>
    obtain ⟨p, foundPrev, above⟩ := grounded.wellFormed.parent found prev
    have lowPrev := grounded.height foundPrev
    have fuel : e.nHeight.toNat = p.nHeight.toNat + 1 := by omega
    dsimp only
    rw [fuel, BlockMap.back, prev, BlockMap.chain, foundPrev]
    simp only [BlockMap.deref, Option.bind_some, foundPrev]

/-- Follow the parents down. -/
theorem grounded_induction {motive : ∀ hash e, map.lookup hash = some e → Prop}
    (root : ∀ hash e (found : map.lookup hash = some e), e.pprev = none → motive hash e found)
    (above : ∀ hash e hashPrev p (found : map.lookup hash = some e), e.pprev = some hashPrev →
      ∀ foundPrev : map.lookup hashPrev = some p, e.nHeight = p.nHeight + 1 →
        motive hashPrev p foundPrev → motive hash e found)
    (hash : UInt256) (e : CBlockIndex) (found : map.lookup hash = some e) :
    motive hash e found := by
  generalize size : e.nHeight.toNat = n
  induction n generalizing hash e with
  | zero =>
    cases prev : e.pprev with
    | none => exact root hash e found prev
    | some hashPrev =>
      obtain ⟨p, foundPrev, height⟩ := grounded.wellFormed.parent found prev
      have low := grounded.height foundPrev
      omega
  | succ n ih =>
    cases prev : e.pprev with
    | none => exact root hash e found prev
    | some hashPrev =>
      obtain ⟨p, foundPrev, height⟩ := grounded.wellFormed.parent found prev
      exact above hash e hashPrev p found prev foundPrev height (ih hashPrev p foundPrev (by omega))

theorem filed_chain (found : map.lookup hash = some e) :
    Filed map (map.chain hash) := by
  have own : ∀ {hash e}, map.lookup hash = some e → map.lookup e.getBlockHash = some e := by
    intro hash e found
    rw [CBlockIndex.getBlockHash, grounded.wellFormed.filed found]
    exact found
  induction hash, e, found using grounded_induction grounded with
  | root hash e found prev =>
    rw [chain_of_lookup grounded found, behind, prev]
    exact forall_mem_singleton.mpr (own found)
  | above hash e hashPrev p found prev foundPrev height ih =>
    rw [chain_of_lookup grounded found, behind, prev]
    exact forall_mem_cons.mpr ⟨own found, ih⟩

theorem length_chain (found : map.lookup hash = some e) :
    ((map.chain hash).length : Int) = e.nHeight + 1 := by
  induction hash, e, found using grounded_induction grounded with
  | root hash e found prev =>
    rw [chain_of_lookup grounded found, behind, prev, grounded.wellFormed.root found prev]
    rfl
  | above hash e hashPrev p found prev foundPrev height ih =>
    rw [chain_of_lookup grounded found, behind, prev, length_cons, height]
    dsimp only
    omega

/-- A new entry leaves the chains of the others. -/
theorem chain_insert {hashNew : UInt256} {new : CBlockIndex}
    (grounded' : Grounded (map.insert hashNew new)) (fresh : map.lookup hashNew = none)
    (found : map.lookup hash = some e) :
    BlockMap.chain (map.insert hashNew new) hash = map.chain hash := by
  have kept : ∀ {hash e}, map.lookup hash = some e →
      AList.lookup hash (map.insert hashNew new) = some e := fun found =>
    AssocMap.lookup_insert_fresh fresh found
  induction hash, e, found using grounded_induction grounded with
  | root hash e found prev =>
    rw [chain_of_lookup grounded found, chain_of_lookup grounded' (kept found), behind, behind,
      prev]
  | above hash e hashPrev p found prev foundPrev height ih =>
    rw [chain_of_lookup grounded found, chain_of_lookup grounded' (kept found), behind, behind,
      prev]
    dsimp only
    rw [ih]

end

/-- The hash, the time and the kind of a block: what the contents of a chain are to the
modifiers. -/
def CBlockIndex.contents (e : CBlockIndex) : UInt256 × UInt32 × Bool :=
  (e.getBlockHash, e.nTime, e.isProofOfStake)

/-- Two indexes have the block, with the same chain below it. -/
def SameChain (map map' : BlockMap) (hash : UInt256) : Prop :=
  (map.chain hash).map CBlockIndex.contents = (map'.chain hash).map CBlockIndex.contents

theorem SameChain.heads (grounded : Grounded map) (grounded' : Grounded map')
    (found : map.lookup hash = some e) (found' : map'.lookup hash = some e')
    (same : SameChain map map' hash) : e.contents = e'.contents ∧
      (behind map e).map CBlockIndex.contents = (behind map' e').map CBlockIndex.contents := by
  rw [SameChain, chain_of_lookup grounded found, chain_of_lookup grounded' found', map_cons,
    map_cons, List.cons.injEq] at same
  exact same

theorem SameChain.parent (grounded : Grounded map) (grounded' : Grounded map') {hashPrev : UInt256}
    {p : CBlockIndex} (found : map.lookup hash = some e) (found' : map'.lookup hash = some e')
    (same : SameChain map map' hash) (prev : e.pprev = some hashPrev)
    (foundPrev : map.lookup hashPrev = some p) :
    ∃ p', e'.pprev = some hashPrev ∧ map'.lookup hashPrev = some p' ∧
      e'.nHeight = p'.nHeight + 1 ∧ SameChain map map' hashPrev := by
  obtain ⟨-, tail⟩ := same.heads grounded grounded' found found'
  rw [behind, prev] at tail
  dsimp only at tail
  cases prev' : e'.pprev with
  | none =>
    rw [behind, prev', chain_of_lookup grounded foundPrev] at tail
    cases tail
  | some hashPrev' =>
    obtain ⟨p', foundPrev', height'⟩ := grounded'.wellFormed.parent found' prev'
    rw [behind, prev'] at tail
    dsimp only at tail
    have heads := tail
    rw [chain_of_lookup grounded foundPrev, chain_of_lookup grounded' foundPrev', map_cons,
      map_cons, List.cons.injEq] at heads
    have hashes := congrArg Prod.fst heads.1
    simp only [CBlockIndex.contents, CBlockIndex.getBlockHash,
      grounded.wellFormed.filed foundPrev, grounded'.wellFormed.filed foundPrev',
      Option.getD_some] at hashes
    subst hashes
    exact ⟨p', rfl, foundPrev', height', tail⟩

/-- Below genesis there is nothing. -/
theorem SameChain.root (grounded : Grounded map) (grounded' : Grounded map')
    (found : map.lookup hash = some e) (found' : map'.lookup hash = some e')
    (same : SameChain map map' hash) (prev : e.pprev = none) : e'.pprev = none := by
  obtain ⟨-, tail⟩ := same.heads grounded grounded' found found'
  rw [behind, prev] at tail
  cases prev' : e'.pprev with
  | none => rfl
  | some hashPrev =>
    obtain ⟨p, foundPrev, -⟩ := grounded'.wellFormed.parent found' prev'
    rw [behind, prev'] at tail
    dsimp only at tail
    rw [chain_of_lookup grounded' foundPrev] at tail
    cases tail

/-! ## What is known of every modifier -/

/-- Every modifier is the one computed from the chain behind the block, in a process that has the
literal where `born` says. -/
structure Made (c : StakeContext) (map : BlockMap) (born : UInt256 → Option UInt64) : Prop where
  grounded : Grounded map
  known : ∀ hash, (born hash).isSome = map.contains hash
  root : ∀ {hash e}, map.lookup hash = some e → e.pprev = none →
    e.nStakeModifier = 0 ∧ e.generatedStakeModifier = false
  made : ∀ {hash e hashPrev}, map.lookup hash = some e → e.pprev = some hashPrev →
    ∃ literal, born hash = some literal ∧ (e.nStakeModifier, e.generatedStakeModifier) =
      computeNextStakeModifier c map literal (map.chain hashPrev)

variable {born born' : UInt256 → Option UInt64}

/-- If the first blocks above genesis were indexed under one address, chains with the same
contents look alike. -/
theorem alike_of_sameChain (made : Made c map born) (made' : Made c map' born')
    (first : ∀ hash e, SameChain map map' hash → map.lookup hash = some e → e.nHeight = 1 →
      born hash = born' hash) (found : map.lookup hash = some e)
    (found' : map'.lookup hash = some e') (same : SameChain map map' hash) :
    List.Forall₂ CBlockIndex.Alike (map.chain hash) (map'.chain hash) := by
  induction hash, e, found using grounded_induction made.grounded generalizing e' with
  | root hash e found prev =>
    have head := (same.heads made.grounded made'.grounded found found').1
    have prev' := same.root made.grounded made'.grounded found found' prev
    simp only [CBlockIndex.contents, Prod.mk.injEq] at head
    rw [chain_of_lookup made.grounded found, chain_of_lookup made'.grounded found', behind, behind,
      prev, prev']
    refine .cons ⟨head.1, head.2.1, head.2.2, ?_, ?_, ?_⟩ .nil
    · rw [made.grounded.wellFormed.root found prev, made'.grounded.wellFormed.root found' prev']
    · rw [(made.root found prev).1, (made'.root found' prev').1]
    · rw [(made.root found prev).2, (made'.root found' prev').2]
  | above hash e hashPrev p found prev foundPrev height ih =>
    have head := (same.heads made.grounded made'.grounded found found').1
    obtain ⟨p', prev', foundPrev', height', below⟩ :=
      same.parent made.grounded made'.grounded found found' prev foundPrev
    simp only [CBlockIndex.contents, Prod.mk.injEq] at head
    have alike := ih foundPrev' below
    obtain ⟨literal, known, modifier⟩ := made.made found prev
    obtain ⟨literal', known', modifier'⟩ := made'.made found' prev'
    have heights : p.nHeight = p'.nHeight := by
      rw [chain_of_lookup made.grounded foundPrev,
        chain_of_lookup made'.grounded foundPrev'] at alike
      exact (forall₂_cons.mp alike).1.height
    -- the address is looked at where the block below is genesis
    have literals : (∀ e, (map.chain hashPrev).head? = some e → e.nHeight = 0) →
        literal = literal' := by
      intro low
      rw [chain_of_lookup made.grounded foundPrev] at low
      have one : e.nHeight = 1 := by
        rw [height, low p rfl]
        rfl
      have equal := first hash e same found one
      rw [known, known'] at equal
      exact Option.some.inj equal
    have next := computeNextStakeModifier_congr (c := c) alike
      (filed_chain made.grounded foundPrev) (filed_chain made'.grounded foundPrev') literals
    rw [← modifier, ← modifier', Prod.mk.injEq] at next
    rw [chain_of_lookup made.grounded found, chain_of_lookup made'.grounded found', behind, behind,
      prev, prev']
    refine .cons ⟨head.1, head.2.1, head.2.2, ?_, next.1, next.2⟩ alike
    rw [height, height', heights]

end Esbcoin
