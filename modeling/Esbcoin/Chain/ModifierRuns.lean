import Esbcoin.Chain.ModifierOrigin

namespace Esbcoin

open Bytes IndexRun AssocMap CBlockIndex IndexNode

variable {c : StakeContext} {map map' : BlockMap} {born : UInt256 → Option UInt64}

/-! ## A block is added -/

theorem grounded_insert (grounded : Grounded map) {hashNew hashPrev : UInt256}
    {new p : CBlockIndex} (fresh : map.lookup hashNew = none)
    (filed : new.phashBlock = some hashNew) (prev : new.pprev = some hashPrev)
    (foundPrev : map.lookup hashPrev = some p) (height : new.nHeight = p.nHeight + 1) :
    Grounded (map.insert hashNew new) := by
  have kept : ∀ {hash e}, map.lookup hash = some e →
      AList.lookup hash (map.insert hashNew new) = some e := fun found =>
    lookup_insert_fresh fresh found
  have cases_of : ∀ {hash e}, AList.lookup hash (map.insert hashNew new) = some e →
      hash = hashNew ∧ e = new ∨ map.lookup hash = some e := fun found =>
    of_lookup_insert found
  refine ⟨⟨?_, ?_, ?_⟩, ?_⟩
  · intro hash e found
    rcases cases_of found with ⟨rfl, rfl⟩ | old
    · exact filed
    · exact grounded.wellFormed.filed old
  · intro hash e hashPrev' found prev'
    rcases cases_of found with ⟨rfl, rfl⟩ | old
    · obtain rfl := Option.some.inj (prev.symm.trans prev')
      exact ⟨p, kept foundPrev, height⟩
    · obtain ⟨q, foundQ, above⟩ := grounded.wellFormed.parent old prev'
      exact ⟨q, kept foundQ, above⟩
  · intro hash e found none
    rcases cases_of found with ⟨rfl, rfl⟩ | old
    · rw [prev] at none
      cases none
    · exact grounded.wellFormed.root old none
  · intro hash e found
    rcases cases_of found with ⟨rfl, rfl⟩ | old
    · have low := grounded.height foundPrev
      omega
    · exact grounded.height old

theorem alike_refl (chain : List CBlockIndex) : List.Forall₂ CBlockIndex.Alike chain chain := by
  induction chain with
  | nil => exact .nil
  | cons e chain ih => exact .cons (.refl e) ih

theorem filed_insert (grounded : Grounded map) {hashNew : UInt256} (new : CBlockIndex)
    (fresh : map.lookup hashNew = none) {hash : UInt256} {e : CBlockIndex}
    (found : map.lookup hash = some e) : Filed (map.insert hashNew new) (map.chain hash) := by
  intro e' member
  have old := filed_chain grounded found e' member
  rw [AList.lookup_insert_ne, old]
  intro equal
  rw [equal, fresh] at old
  cases old

theorem made_insert (made : Made c map born) {hashNew hashPrev : UInt256} {new p : CBlockIndex}
    {literal : UInt64} {born' : UInt256 → Option UInt64}
    (fresh : map.lookup hashNew = none) (filed : new.phashBlock = some hashNew)
    (prev : new.pprev = some hashPrev) (foundPrev : map.lookup hashPrev = some p)
    (height : new.nHeight = p.nHeight + 1)
    (modifier : (new.nStakeModifier, new.generatedStakeModifier) =
      computeNextStakeModifier c map literal (map.chain hashPrev))
    (births : ∀ hash, born' hash = if hash = hashNew then some literal else born hash) :
    Made c (map.insert hashNew new) born' := by
  have grounded := grounded_insert made.grounded fresh filed prev foundPrev height
  -- the chains below are those of the index before
  have computed : ∀ {hash e} (literal : UInt64), map.lookup hash = some e →
      computeNextStakeModifier c (map.insert hashNew new) literal
          (BlockMap.chain (map.insert hashNew new) hash) =
        computeNextStakeModifier c map literal (map.chain hash) := by
    intro hash e literal found
    rw [chain_insert made.grounded grounded fresh found]
    exact computeNextStakeModifier_congr (alike_refl _)
      (filed_insert made.grounded new fresh found) (filed_chain made.grounded found) fun _ => rfl
  refine ⟨grounded, ?_, ?_, ?_⟩
  · intro hash
    rw [births, contains_insert]
    by_cases own : hash = hashNew
    · simp [own]
    · simp [own, made.known]
  · intro hash e found none
    rw [lookup_insert_eq] at found
    by_cases own : hash = hashNew
    · rw [if_pos own, Option.some.injEq] at found
      rw [← found, prev] at none
      cases none
    · rw [if_neg own] at found
      exact made.root found none
  intro hash e hashPrev' found prev'
  rw [lookup_insert_eq] at found
  rw [births]
  by_cases own : hash = hashNew
  · rw [if_pos own, Option.some.injEq] at found
    rw [if_pos own]
    subst found
    obtain rfl := Option.some.inj (prev.symm.trans prev')
    exact ⟨literal, rfl, by rw [computed literal foundPrev, modifier]⟩
  rw [if_neg own] at found
  rw [if_neg own]
  obtain ⟨literal', known, next⟩ := made.made found prev'
  obtain ⟨q, foundQ, -⟩ := made.grounded.wellFormed.parent found prev'
  exact ⟨literal', known, by rw [computed literal' foundQ, next]⟩

namespace IndexNode

variable {node : IndexNode} {block : CBlock} {p : CBlockIndex}

theorem newEntry_modifier (grounded : Grounded node.mapBlockIndex)
    (fresh : node.mapBlockIndex.lookup block.getHash = none)
    (foundPrev : node.mapBlockIndex.lookup block.hashPrevBlock = some p) :
    ((node.newEntry c block p).nStakeModifier, (node.newEntry c block p).generatedStakeModifier) =
      computeNextStakeModifier c node.mapBlockIndex node.literal
        (node.mapBlockIndex.chain block.hashPrevBlock) := by
  unfold newEntry
  generalize entry : ({ ofBlock block with
    pprev := some block.hashPrevBlock
    nHeight := p.nHeight + 1 } : CBlockIndex) = new
  have grounded' : Grounded (node.mapBlockIndex.insert block.getHash new) :=
    grounded_insert grounded fresh (by rw [← entry]; rfl) (by rw [← entry]) foundPrev
      (by rw [← entry])
  rw [← computeNextStakeModifier_congr (c := c) (alike_refl _)
    (filed_insert grounded new fresh foundPrev) (filed_chain grounded foundPrev) fun _ => rfl,
    ← chain_insert grounded grounded' fresh foundPrev]
  rfl

/-- What adding a block to an index with its parent does. -/
theorem addToBlockIndex_cases (block : CBlock)
    (foundPrev : node.mapBlockIndex.lookup block.hashPrevBlock = some p) :
    node.addToBlockIndex c block = node ∨
      node.mapBlockIndex.lookup block.getHash = none ∧
        (node.addToBlockIndex c block).mapBlockIndex =
          node.mapBlockIndex.insert block.getHash (node.newEntry c block p) ∧
        (node.addToBlockIndex c block).literal = node.literal := by
  unfold addToBlockIndex
  cases found : node.mapBlockIndex.lookup block.getHash with
  | some e => exact Or.inl rfl
  | none =>
    rw [foundPrev]
    exact Or.inr ⟨rfl, rfl, rfl⟩

/-! ## The index is reloaded -/

theorem alike_reload (e : CBlockIndex) : e.Alike (reload e) := ⟨rfl, rfl, rfl, rfl, rfl, rfl⟩

theorem grounded_reload (grounded : Grounded map) : Grounded (map.mapValues reload) := by
  have tree : BlockMap.SameTree map (map.mapValues reload) := by
    intro hash
    rw [lookup_mapValues, Option.map_map]
    rfl
  refine ⟨grounded.wellFormed.of_sameTree tree, ?_⟩
  intro hash e found
  rw [lookup_mapValues] at found
  obtain ⟨old, foundOld, rfl⟩ := Option.map_eq_some_iff.mp found
  have height := grounded.height foundOld
  exact height

theorem chain_reload (grounded : Grounded map) {hash : UInt256} {e : CBlockIndex}
    (found : map.lookup hash = some e) :
    BlockMap.chain (map.mapValues reload) hash = (map.chain hash).map reload := by
  have kept : ∀ {hash e}, map.lookup hash = some e →
      AList.lookup hash (map.mapValues reload) = some (reload e) := by
    intro hash e found
    rw [lookup_mapValues, found, Option.map_some]
  induction hash, e, found using grounded_induction grounded with
  | root hash e found prev =>
    rw [chain_of_lookup grounded found, chain_of_lookup (grounded_reload grounded) (kept found),
      behind, behind, show (reload e).pprev = e.pprev from rfl, prev]
    rfl
  | above hash e hashPrev p found prev foundPrev height ih =>
    rw [chain_of_lookup grounded found, chain_of_lookup (grounded_reload grounded) (kept found),
      behind, behind, show (reload e).pprev = e.pprev from rfl, prev]
    dsimp only
    rw [ih, List.map_cons]

theorem made_reload (made : Made c map born) : Made c (map.mapValues reload) born := by
  have grounded := grounded_reload made.grounded
  refine ⟨grounded, ?_, ?_, ?_⟩
  · intro hash
    rw [made.known, contains, contains, lookup_mapValues,
      Option.isSome_map]
  · intro hash e found none
    rw [lookup_mapValues] at found
    obtain ⟨old, foundOld, rfl⟩ := Option.map_eq_some_iff.mp found
    have root := made.root foundOld none
    exact root
  intro hash e hashPrev found prev
  rw [lookup_mapValues] at found
  obtain ⟨old, foundOld, rfl⟩ := Option.map_eq_some_iff.mp found
  obtain ⟨literal, known, next⟩ := made.made foundOld prev
  obtain ⟨p, foundPrev, -⟩ := made.grounded.wellFormed.parent foundOld prev
  have foundPrev' : AList.lookup hashPrev (map.mapValues reload) = some (reload p) := by
    rw [lookup_mapValues, foundPrev, Option.map_some]
  refine ⟨literal, known, next.trans ?_⟩
  refine computeNextStakeModifier_congr ?_ (filed_chain made.grounded foundPrev)
    (filed_chain grounded foundPrev') fun _ => rfl
  rw [chain_reload made.grounded foundPrev, List.forall₂_map_right_iff]
  exact List.forall₂_same.mpr fun e _ => alike_reload e

end IndexNode

/-! ## The life of a node -/

namespace IndexRun

variable (c : StakeContext) (genesis : CBlock)

/-- The address of the literal in the process that indexed the block. -/
def literalAt (run : IndexRun) (hash : UInt256) : Option UInt64 :=
  (run.steps.inits.find? fun steps =>
    ((IndexRun.mk run.literal steps).node c genesis).mapBlockIndex.contains hash).map fun steps =>
      ((IndexRun.mk run.literal steps).node c genesis).literal

variable {c genesis} {literal : UInt64} {steps : List IndexStep}

theorem node_append (c : StakeContext) (genesis : CBlock) (literal : UInt64)
    (steps : List IndexStep) (last : IndexStep) :
    (IndexRun.mk literal (steps ++ [last])).node c genesis =
      step c ((IndexRun.mk literal steps).node c genesis) last := by
  simp only [node, start, List.foldl_append, List.foldl_cons, List.foldl_nil]

theorem literalAt_append (c : StakeContext) (genesis : CBlock) (literal : UInt64)
    (steps : List IndexStep) (last : IndexStep) (hash : UInt256) :
    (IndexRun.mk literal (steps ++ [last])).literalAt c genesis hash =
      ((IndexRun.mk literal steps).literalAt c genesis hash).or
        (if ((IndexRun.mk literal (steps ++ [last])).node c genesis).mapBlockIndex.contains hash then
          some ((IndexRun.mk literal (steps ++ [last])).node c genesis).literal
        else none) := by
  unfold literalAt
  rw [List.inits_append, List.find?_append, Option.map_or,
    show [last].inits.tail = [[last]] from rfl, List.map_singleton, List.find?_singleton]
  congr 1
  split <;> rfl

/-- A step that indexes no block leaves the addresses. -/
theorem literalAt_of_same
    (known : ∀ hash, ((IndexRun.mk literal steps).literalAt c genesis hash).isSome =
      ((IndexRun.mk literal steps).node c genesis).mapBlockIndex.contains hash)
    {last : IndexStep}
    (same : ∀ hash,
      ((IndexRun.mk literal (steps ++ [last])).node c genesis).mapBlockIndex.contains hash =
        ((IndexRun.mk literal steps).node c genesis).mapBlockIndex.contains hash) :
    (IndexRun.mk literal (steps ++ [last])).literalAt c genesis =
      (IndexRun.mk literal steps).literalAt c genesis := by
  funext hash
  rw [literalAt_append, same, ← known]
  cases (IndexRun.mk literal steps).literalAt c genesis hash with
  | none => rfl
  | some found => rfl

theorem node_nil (literal : UInt64) :
    ((IndexRun.mk literal []).node c genesis).mapBlockIndex =
      AList.insert genesis.getHash
        { ofBlock genesis with
          nChainWork := getBlockProof genesis.nBits
          nStatus := (ofBlock genesis).nStatus.raiseValidity BLOCK_VALID_TREE } ∅ := rfl

theorem made_start (literal : UInt64) :
    Made c ((IndexRun.mk literal []).node c genesis).mapBlockIndex
      ((IndexRun.mk literal []).literalAt c genesis) := by
  have only : ∀ {hash e},
      ((IndexRun.mk literal []).node c genesis).mapBlockIndex.lookup hash = some e →
        hash = genesis.getHash ∧ e.phashBlock = some genesis.getHash ∧ e.pprev = none ∧
          e.nHeight = 0 ∧ e.nStakeModifier = 0 ∧ e.generatedStakeModifier = false := by
    intro hash e found
    rw [node_nil] at found
    rcases of_lookup_insert found with ⟨own, rfl⟩ | old
    · exact ⟨own, rfl, rfl, rfl, rfl, rfl⟩
    · cases old
  refine ⟨⟨⟨?_, ?_, ?_⟩, ?_⟩, ?_, ?_, ?_⟩
  · intro hash e found
    obtain ⟨rfl, filed, -⟩ := only found
    exact filed
  · intro hash e hashPrev found prev
    obtain ⟨-, -, none, -⟩ := only found
    rw [none] at prev
    cases prev
  · intro hash e found _
    exact (only found).2.2.2.1
  · intro hash e found
    have zero := (only found).2.2.2.1
    omega
  · intro hash
    unfold literalAt
    rw [show ([] : List IndexStep).inits = [[]] from rfl, List.find?_singleton]
    split
    · rename_i inside
      rw [inside]
      rfl
    rename_i outside
    rw [Bool.not_eq_true] at outside
    rw [outside]
    rfl
  · intro hash e found _
    exact (only found).2.2.2.2
  · intro hash e hashPrev found prev
    obtain ⟨-, -, none, -⟩ := only found
    rw [none] at prev
    cases prev

/-- One step keeps what is known of the modifiers. -/
theorem made_step (last : IndexStep)
    (made : Made c ((IndexRun.mk literal steps).node c genesis).mapBlockIndex
      ((IndexRun.mk literal steps).literalAt c genesis)) :
    Made c ((IndexRun.mk literal (steps ++ [last])).node c genesis).mapBlockIndex
      ((IndexRun.mk literal (steps ++ [last])).literalAt c genesis) := by
  have after := node_append c genesis literal steps last
  have births := fun hash => literalAt_append c genesis literal steps last hash
  generalize ended : (IndexRun.mk literal (steps ++ [last])).node c genesis = node' at after births
  have unchanged : node'.mapBlockIndex =
      ((IndexRun.mk literal steps).node c genesis).mapBlockIndex →
      Made c node'.mapBlockIndex ((IndexRun.mk literal (steps ++ [last])).literalAt c genesis) := by
    intro same
    rw [literalAt_of_same made.known (fun hash => by rw [ended, same]), same]
    exact made
  generalize (IndexRun.mk literal steps).node c genesis = before at *
  cases last with
  | add block =>
    by_cases inside : before.mapBlockIndex.contains block.hashPrevBlock = true
    · obtain ⟨p, foundPrev⟩ := (contains_iff _ _).mp inside
      have added : node' = before.addToBlockIndex c block := by
        rw [after, step, if_pos inside]
      rcases IndexNode.addToBlockIndex_cases (c := c) block foundPrev with same | changed
      · exact unchanged (by rw [added, same])
      obtain ⟨fresh, inserted, process⟩ := changed
      rw [← added] at inserted process
      rw [inserted] at births ⊢
      refine made_insert made fresh rfl rfl foundPrev rfl
        (IndexNode.newEntry_modifier made.grounded fresh foundPrev) ?_
      intro hash
      rw [births, contains_insert, process]
      have known := made.known hash
      by_cases own : hash = block.getHash
      · subst own
        rw [(contains_eq_false_iff _ _).mpr fresh, Option.isSome_eq_false_iff,
          Option.isNone_iff_eq_none] at known
        simp [known]
      rw [if_neg own, decide_eq_false own, Bool.false_or, ← known]
      cases (IndexRun.mk literal steps).literalAt c genesis hash with
      | none => rfl
      | some found => rfl
    · exact unchanged (by rw [after, step, if_neg inside])
  | prove hash hashProofOfStake => exact unchanged (by rw [after, step])
  | restart address =>
    have reloaded : node'.mapBlockIndex = before.mapBlockIndex.mapValues IndexNode.reload := by
      rw [after, step]
    rw [reloaded]
    have same : (IndexRun.mk literal (steps ++ [.restart address])).literalAt c genesis =
        (IndexRun.mk literal steps).literalAt c genesis := by
      funext hash
      rw [births, reloaded, contains, lookup_mapValues, Option.isSome_map]
      have known := made.known hash
      rw [contains] at known
      rw [← known]
      cases (IndexRun.mk literal steps).literalAt c genesis hash with
      | none => rfl
      | some found => rfl
    rw [same]
    exact IndexNode.made_reload made

theorem made_run (c : StakeContext) (genesis : CBlock) (run : IndexRun) :
    Made c (run.node c genesis).mapBlockIndex (run.literalAt c genesis) := by
  obtain ⟨literal, steps⟩ := run
  induction steps using List.reverseRecOn with
  | nil => exact made_start literal
  | append_singleton steps last ih => exact made_step last ih

/-! ## Checksums -/

/-- Every checksum is the one computed over the entry and the one below it. -/
structure Summed (c : StakeContext) (map : BlockMap) : Prop where
  root : ∀ {hash e}, map.lookup hash = some e → e.pprev = none → e.nStakeModifierChecksum = 0
  sum : ∀ {hash e hashPrev p}, map.lookup hash = some e → e.pprev = some hashPrev →
    map.lookup hashPrev = some p →
    e.nStakeModifierChecksum = e.getStakeModifierChecksum c (some p) ∧
      e.nFlags.stakeEntropy = (e.getStakeEntropyBit != 0)

/-- The process that started the run goes on to its end. -/
def NeverRestarts (run : IndexRun) : Prop := ∀ literal, IndexStep.restart literal ∉ run.steps

theorem summed_insert (grounded : Grounded map) (summed : Summed c map) (node : IndexNode)
    {block : CBlock} {p : CBlockIndex}
    (fresh : map.lookup block.getHash = none)
    (foundPrev : map.lookup block.hashPrevBlock = some p) :
    Summed c (map.insert block.getHash (node.newEntry c block p)) := by
  refine ⟨?_, ?_⟩
  · intro hash e found none
    rcases of_lookup_insert found with ⟨-, rfl⟩ | old
    · cases none
    · exact summed.root old none
  intro hash e hashPrev q found prev foundQ
  rcases of_lookup_insert found with ⟨-, rfl⟩ | old
  · obtain rfl : block.hashPrevBlock = hashPrev := Option.some.inj prev
    rw [lookup_insert_fresh fresh foundPrev] at foundQ
    obtain rfl := Option.some.inj foundQ
    exact ⟨rfl, rfl⟩
  obtain ⟨q', foundQ', -⟩ := grounded.wellFormed.parent old prev
  rw [lookup_insert_fresh fresh foundQ'] at foundQ
  obtain rfl := Option.some.inj foundQ
  exact summed.sum old prev foundQ'

theorem summed_run (run : IndexRun) (never : NeverRestarts run) :
    Summed c (run.node c genesis).mapBlockIndex := by
  obtain ⟨literal, steps⟩ := run
  induction steps using List.reverseRecOn with
  | nil =>
    have only : ∀ {hash e}, ((IndexRun.mk literal []).node c genesis).mapBlockIndex.lookup hash =
        some e → e.nStakeModifierChecksum = 0 ∧ e.pprev = none := by
      intro hash e found
      rw [node_nil] at found
      rcases of_lookup_insert found with ⟨-, rfl⟩ | old
      · exact ⟨rfl, rfl⟩
      · cases old
    refine ⟨fun found _ => (only found).1, ?_⟩
    intro hash e hashPrev p found prev
    rw [(only found).2] at prev
    cases prev
  | append_singleton steps last ih =>
    have summed := ih fun address member => never address (List.mem_append_left _ member)
    have grounded := (made_run c genesis ⟨literal, steps⟩).grounded
    rw [node_append]
    generalize (IndexRun.mk literal steps).node c genesis = before at *
    cases last with
    | add block =>
      rw [step]
      by_cases inside : before.mapBlockIndex.contains block.hashPrevBlock = true
      · obtain ⟨p, foundPrev⟩ := (contains_iff _ _).mp inside
        rw [if_pos inside]
        rcases IndexNode.addToBlockIndex_cases (c := c) block foundPrev with same | changed
        · rw [same]
          exact summed
        · rw [changed.2.1]
          exact summed_insert grounded summed before changed.1 foundPrev
      · rw [if_neg inside]
        exact summed
    | prove hash hashProofOfStake => exact summed
    | restart address =>
      exact absurd (List.mem_append_right steps (List.mem_singleton.mpr rfl)) (never address)

/-! ## Two nodes -/

/-- Blocks with one chain behind them have one modifier. -/
def ModifiersAgree (map map' : BlockMap) : Prop :=
  ∀ hash e e', map.lookup hash = some e → map'.lookup hash = some e' → SameChain map map' hash →
    e.nStakeModifier = e'.nStakeModifier

/-- Blocks with one chain behind them have one checksum. -/
def ChecksumsAgree (map map' : BlockMap) : Prop :=
  ∀ hash e e', map.lookup hash = some e → map'.lookup hash = some e' → SameChain map map' hash →
    e.nStakeModifierChecksum = e'.nStakeModifierChecksum

/-- The same kernel hash was recorded for them. -/
def SameProofs (map map' : BlockMap) : Prop :=
  ∀ hash e e', map.lookup hash = some e → map'.lookup hash = some e' → SameChain map map' hash →
    e.hashProofOfStake = e'.hashProofOfStake

/-- The blocks right above genesis were indexed by processes that hold the literal at the same
address. -/
def SameLiterals (c : StakeContext) (genesis : CBlock) (first second : IndexRun) : Prop :=
  ∀ hash e, (first.node c genesis).mapBlockIndex.lookup hash = some e → e.nHeight = 1 →
    SameChain (first.node c genesis).mapBlockIndex (second.node c genesis).mapBlockIndex hash →
    first.literalAt c genesis hash = second.literalAt c genesis hash

/-- The modifier of a block right above genesis is the address. -/
theorem modifier_of_first (made : Made c map born) {hash : UInt256} {e : CBlockIndex}
    (found : map.lookup hash = some e) (one : e.nHeight = 1) :
    born hash = some e.nStakeModifier := by
  cases prev : e.pprev with
  | none =>
    rw [made.grounded.wellFormed.root found prev] at one
    cases one
  | some hashPrev =>
    obtain ⟨literal, known, next⟩ := made.made found prev
    obtain ⟨p, foundPrev, height⟩ := made.grounded.wellFormed.parent found prev
    rw [chain_of_lookup made.grounded foundPrev, computeNextStakeModifier,
      if_pos (by omega), Prod.mk.injEq] at next
    rw [known, next.1]

theorem checksums_agree (summed : Summed c map) (summed' : Summed c map')
    (grounded : Grounded map) (grounded' : Grounded map') (proofs : SameProofs map map')
    (alike : ∀ hash e e', map.lookup hash = some e → map'.lookup hash = some e' →
      SameChain map map' hash → e.Alike e') : ChecksumsAgree map map' := by
  intro hash e e' found found' same
  induction hash, e, found using grounded_induction grounded generalizing e' with
  | root hash e found prev =>
    rw [summed.root found prev,
      summed'.root found' (same.root grounded grounded' found found' prev)]
  | above hash e hashPrev p found prev foundPrev height ih =>
    obtain ⟨p', prev', foundPrev', -, below⟩ :=
      same.parent grounded grounded' found found' prev foundPrev
    obtain ⟨sum, entropy⟩ := summed.sum found prev foundPrev
    obtain ⟨sum', entropy'⟩ := summed'.sum found' prev' foundPrev'
    have look := alike hash e e' found found' same
    have flags : e.nFlags = e'.nFlags := by
      have bits : e.nFlags.stakeEntropy = e'.nFlags.stakeEntropy := by
        rw [entropy, entropy', getStakeEntropyBit, getStakeEntropyBit,
          look.hash]
      rw [BlockFlags.mk.injEq]
      exact ⟨look.stake, bits, look.generated⟩
    rw [sum, sum', getStakeModifierChecksum, getStakeModifierChecksum,
      flags, proofs hash e e' found found' same, look.modifier]
    simp only [Option.elim_some, ih p' foundPrev' below]

theorem modifiers_agree_iff (c : StakeContext) (genesis : CBlock) (first second : IndexRun) :
    (ModifiersAgree (first.node c genesis).mapBlockIndex (second.node c genesis).mapBlockIndex ↔
      SameLiterals c genesis first second) ∧
    (SameLiterals c genesis first second → NeverRestarts first → NeverRestarts second →
      SameProofs (first.node c genesis).mapBlockIndex (second.node c genesis).mapBlockIndex →
      ChecksumsAgree (first.node c genesis).mapBlockIndex
        (second.node c genesis).mapBlockIndex) := by
  have made := made_run c genesis first
  have made' := made_run c genesis second
  have alike : SameLiterals c genesis first second → ∀ hash e e',
      (first.node c genesis).mapBlockIndex.lookup hash = some e →
      (second.node c genesis).mapBlockIndex.lookup hash = some e' →
      SameChain (first.node c genesis).mapBlockIndex (second.node c genesis).mapBlockIndex hash →
      e.Alike e' := by
    intro literals hash e e' found found' same
    have chains := alike_of_sameChain made made'
      (fun hash e same found one => literals hash e found one same) found found' same
    rw [chain_of_lookup made.grounded found, chain_of_lookup made'.grounded found'] at chains
    exact (List.forall₂_cons.mp chains).1
  refine ⟨⟨?_, ?_⟩, ?_⟩
  · intro agree hash e found one same
    have length := congrArg List.length same
    rw [List.length_map, List.length_map] at length
    have long := length_chain made.grounded found
    cases found' : (second.node c genesis).mapBlockIndex.lookup hash with
    | none =>
      rw [show (second.node c genesis).mapBlockIndex.chain hash = [] by
        rw [BlockMap.chain, found'], List.length_nil] at length
      omega
    | some e' =>
      have long' := length_chain made'.grounded found'
      rw [modifier_of_first made found one, modifier_of_first made' found' (by omega),
        agree hash e e' found found' same]
  · intro literals hash e e' found found' same
    exact (alike literals hash e e' found found' same).modifier
  · intro literals never never' proofs
    exact checksums_agree (summed_run first never) (summed_run second never') made.grounded
      made'.grounded proofs (alike literals)

/-! ## One header, two processes -/

def sampleStake : StakeContext where
  hash _ := 0
  modifierUpgradeBlock := 0

def sampleHeader (hash hashPrevBlock : UInt256) (nTime : UInt32) : CBlock where
  nVersion := 1
  hashPrevBlock := hashPrevBlock
  hashMerkleRoot := 0
  nTime := nTime
  nBits := 0
  nNonce := 0
  hash := hash
  vtx := []

def sampleIndexRun (literal : UInt64) : IndexRun := ⟨literal, [.add (sampleHeader 2 1 60)]⟩

theorem first_modifier_differs :
    ¬ ModifiersAgree ((sampleIndexRun 0x1000).node sampleStake (sampleHeader 1 0 0)).mapBlockIndex
      ((sampleIndexRun 0x2000).node sampleStake (sampleHeader 1 0 0)).mapBlockIndex := by
  intro agree
  have found : ∀ literal, ((sampleIndexRun literal).node sampleStake
      (sampleHeader 1 0 0)).mapBlockIndex.lookup 2 =
        some (IndexNode.newEntry sampleStake
          (IndexRun.start sampleStake (sampleHeader 1 0 0) (sampleIndexRun literal))
          (sampleHeader 2 1 60) _) := fun _ => rfl
  have differ := agree 2 _ _ (found 0x1000) (found 0x2000)
    (by unfold SameChain; decide +kernel)
  exact absurd differ (by decide +kernel)

end IndexRun

end Esbcoin
