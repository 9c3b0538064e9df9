import Esbcoin.Chain.ActiveChain
import Esbcoin.Lib.StepRun
import Esbcoin.Masternode

/-!
# Block hashes for scores

`GetBlockHash` and `CMasternode::CalculateScore` (`src/masternode.cpp:18-54`, `:155-179`). The hash
of a height is read from the active chain once and then kept in `mapCacheBlockHashes`, which nothing
empties.
-/

namespace Esbcoin

open StepRun

namespace LinkedChain

/-- The block at the tip. -/
def tip (c : LinkedChain) : Option CBlockIndex := c.mapBlockIndex.deref c.chainActive.tip

/-- The height a query asks for: the tip's for a height that is not positive
(`masternode.cpp:28-29`). -/
def asked (c : LinkedChain) (nBlockHeight : Int) : Int :=
  if nBlockHeight ≤ 0 then c.chainActive.height else nBlockHeight

/-- The block of the active chain that a query asks for. -/
def activeHash (c : LinkedChain) (nBlockHeight : Int) : Option UInt256 :=
  c.chainActive.atHeight (c.asked nBlockHeight)

end LinkedChain

/-- The loop of `GetBlockHash` back from `BlockReading` (`masternode.cpp:41-51`). -/
def readBack (mapBlockIndex : BlockMap) (nBlockHeight : Int) :
    Nat → Option CBlockIndex → Option UInt256
  | fuel + 1, some BlockReading =>
    if BlockReading.nHeight = nBlockHeight then some BlockReading.getBlockHash
    else readBack mapBlockIndex nBlockHeight fuel (mapBlockIndex.deref BlockReading.pprev)
  | _, _ => none

/-- `GetBlockHash` (`masternode.cpp:21-54`), with `mapCacheBlockHashes` behind it. The loop takes
at most one turn for the tip and one for each of its ancestors. -/
def getBlockHash (c : LinkedChain) (mapCacheBlockHashes : AssocMap Int UInt256)
    (nBlockHeight : Int) : Option UInt256 × AssocMap Int UInt256 :=
  match c.tip with
  | none => (none, mapCacheBlockHashes)
  | some active_tip =>
    let nBlockHeight := if nBlockHeight ≤ 0 then active_tip.nHeight else nBlockHeight
    if active_tip.nHeight < nBlockHeight then (none, mapCacheBlockHashes)
    else
      match mapCacheBlockHashes.lookup nBlockHeight with
      | some cached_hash => (some cached_hash, mapCacheBlockHashes)
      | none =>
        match readBack c.mapBlockIndex nBlockHeight (active_tip.nHeight.toNat + 1) c.tip with
        | some hash => (some hash, mapCacheBlockHashes.insert nBlockHeight hash)
        | none => (none, mapCacheBlockHashes)

/-- The hash of a sequence of words (`CHashWriter`). -/
abbrev WordsHash := List UInt256 → UInt256

/-- The score of an outpoint for a block (`masternode.cpp:160`, `:167-178`). -/
def scoreOf (sha : WordsHash) (vin : CTxIn) (hash : UInt256) : UInt256 :=
  let aux := vin.prevout.hash + BitVec.ofNat 256 vin.prevout.n.toNat
  let hash2 := sha [hash]
  let hash3 := sha [hash, aux]
  if hash3 > hash2 then hash3 - hash2 else hash2 - hash3

/-- `CMasternode::CalculateScore` (`masternode.cpp:155-179`); the modulus is not used. -/
def calculateScore (sha : WordsHash) (c : LinkedChain)
    (mapCacheBlockHashes : AssocMap Int UInt256) (mn : CMasternode) (nBlockHeight : Int) :
    UInt256 × AssocMap Int UInt256 :=
  match c.tip with
  | none => (0, mapCacheBlockHashes)
  | some _ =>
    match getBlockHash c mapCacheBlockHashes nBlockHeight with
    | (none, cache) => (0, cache)
    | (some hash, cache) => (scoreOf sha mn.vin hash, cache)

/-! ## What the loop reads -/

section Read

variable {c : LinkedChain}

theorem readBack_eq {nBlockHeight fuel i : Nat} {hash : UInt256} {pindex : CBlockIndex}
    (enough : i < fuel) (here : c.chainActive.vChain[i]? = some hash)
    (found : c.mapBlockIndex.lookup hash = some pindex) (below : nBlockHeight ≤ i) :
    readBack c.mapBlockIndex nBlockHeight fuel (some pindex) =
      c.chainActive.vChain[nBlockHeight]? := by
  induction fuel generalizing i hash pindex with
  | zero => omega
  | succ fuel ih =>
    have height := c.linked.nHeight_eq here found
    unfold readBack
    by_cases equal : nBlockHeight = i
    · subst equal
      rw [if_pos height, here, CBlockIndex.getBlockHash, c.wellFormed.filed found]
      rfl
    obtain ⟨pindex', found', -, prev⟩ := c.linked.entry here
    obtain rfl := Option.some.inj (found.symm.trans found')
    rw [if_neg (by omega)] at prev
    obtain ⟨hashPrev, there⟩ : ∃ hashPrev, c.chainActive.vChain[i - 1]? = some hashPrev := by
      have := (List.getElem?_eq_some_iff.mp here).1
      exact ⟨_, List.getElem?_eq_getElem (by omega)⟩
    obtain ⟨parent, foundParent, -⟩ := c.linked.entry there
    rw [if_neg (by omega), prev, there, BlockMap.deref, Option.bind_some, foundParent]
    exact ih (by omega) there foundParent (by omega)

theorem tip_cases (c : LinkedChain) :
    (c.tip = none ∧ c.chainActive.vChain = []) ∨
      ∃ hash pindex, c.tip = some pindex ∧ c.mapBlockIndex.lookup hash = some pindex ∧
        c.chainActive.vChain[c.chainActive.vChain.length - 1]? = some hash ∧
        0 < c.chainActive.vChain.length ∧ pindex.nHeight = c.chainActive.height := by
  unfold LinkedChain.tip
  rw [CChain.tip_eq_getElem?]
  cases last : c.chainActive.vChain[c.chainActive.vChain.length - 1]? with
  | none =>
    refine Or.inl ⟨rfl, ?_⟩
    rw [List.getElem?_eq_none_iff] at last
    exact List.length_eq_zero_iff.mp (by omega)
  | some hash =>
    obtain ⟨pindex, found, height, -⟩ := c.linked.entry last
    have positive := (List.getElem?_eq_some_iff.mp last).1
    refine Or.inr ⟨hash, pindex, found, found, rfl, by omega, ?_⟩
    rw [height, CChain.height]
    omega

/-- What `GetBlockHash` answers: what is cached for the height, or else what the active chain
has, which is then cached. -/
theorem getBlockHash_eq (c : LinkedChain) (cache : AssocMap Int UInt256) (nBlockHeight : Int) :
    getBlockHash c cache nBlockHeight = match c.activeHash nBlockHeight with
      | none => (none, cache)
      | some hash =>
        match cache.lookup (c.asked nBlockHeight) with
        | some cached => (some cached, cache)
        | none => (some hash, cache.insert (c.asked nBlockHeight) hash) := by
  simp only [getBlockHash]
  rcases tip_cases c with ⟨noTip, empty⟩ | ⟨hash, pindex, tip, found, last, positive, height⟩
  · have none : c.activeHash nBlockHeight = none := by
      unfold LinkedChain.activeHash CChain.atHeight
      split
      · rfl
      · rw [empty]
        rfl
    rw [noTip, none]
  simp only [tip]
  generalize same : (if nBlockHeight ≤ 0 then pindex.nHeight else nBlockHeight) = key
  have asked : key = c.asked nBlockHeight := by
    rw [← same, height]
    rfl
  subst asked
  have nonneg : 0 ≤ c.asked nBlockHeight := by
    unfold LinkedChain.asked CChain.height
    split <;> omega
  have active : c.activeHash nBlockHeight =
      c.chainActive.vChain[(c.asked nBlockHeight).toNat]? := by
    unfold LinkedChain.activeHash CChain.atHeight
    rw [if_neg (by omega)]
  rw [active]
  by_cases above : pindex.nHeight < c.asked nBlockHeight
  · rw [if_pos above, List.getElem?_eq_none (by rw [height, CChain.height] at above; omega)]
  rw [if_neg above]
  have within : (c.asked nBlockHeight).toNat ≤ c.chainActive.vChain.length - 1 := by
    rw [height, CChain.height] at above
    omega
  have read := readBack_eq (show _ < pindex.nHeight.toNat + 1 by
    rw [height, CChain.height]; omega) last found within
  rw [Int.toNat_of_nonneg nonneg] at read
  obtain ⟨hash', there⟩ : ∃ hash', c.chainActive.vChain[(c.asked nBlockHeight).toNat]? =
      some hash' := by
    refine ⟨_, List.getElem?_eq_getElem ?_⟩
    rw [height, CChain.height] at above
    omega
  rw [there] at read ⊢
  cases cache.lookup (c.asked nBlockHeight) with
  | some cached => rfl
  | none => simp only [read]

end Read

/-! ## Tip changes and queries -/

/-- The tip changes, or the hash of a height is asked for. -/
inductive ChainAction where
  | setTip (c : LinkedChain)
  | query (nBlockHeight : Int)

/-- A step of the node: another tip, or a query. -/
def chainStep (w : LinkedChain × AssocMap Int UInt256) :
    ChainAction → LinkedChain × AssocMap Int UInt256
  | .setTip c => (c, w.2)
  | .query nBlockHeight => (w.1, (getBlockHash w.1 w.2 nBlockHeight).2)

/-- The score from the block of the active chain. -/
def activeScore (sha : WordsHash) (c : LinkedChain) (mn : CMasternode) (nBlockHeight : Int) :
    UInt256 :=
  match c.activeHash nBlockHeight with
  | none => 0
  | some hash => scoreOf sha mn.vin hash

/-- An answer is the active chain's block, and scores are functions of the active chain. -/
def AnswersRight (w : LinkedChain × AssocMap Int UInt256) : ChainAction → Prop
  | .setTip _ => True
  | .query nBlockHeight =>
      (∀ hash, (getBlockHash w.1 w.2 nBlockHeight).1 = some hash →
        w.1.activeHash nBlockHeight = some hash) ∧
      ∀ sha mn, (calculateScore sha w.1 w.2 mn nBlockHeight).1 = activeScore sha w.1 mn nBlockHeight

/-- A step of the active chain, with the block each height had when it was first asked for. -/
def askStep (w : LinkedChain × AssocMap Int UInt256) :
    ChainAction → LinkedChain × AssocMap Int UInt256
  | .setTip c => (c, w.2)
  | .query nBlockHeight =>
    match w.1.activeHash nBlockHeight with
    | none => w
    | some hash => (w.1, w.2.insertNew (w.1.asked nBlockHeight) hash)

/-- What is cached for a query is the hash of the active block. -/
def SameBlock (w : LinkedChain × AssocMap Int UInt256) : ChainAction → Prop
  | .setTip _ => True
  | .query nBlockHeight => ∀ hash first, w.1.activeHash nBlockHeight = some hash →
      w.2.lookup (w.1.asked nBlockHeight) = some first → first = hash

/-- The cache has the blocks that the heights had when they were first asked for. -/
theorem chainStep_eq_askStep : chainStep = askStep := by
  funext w a
  cases a with
  | setTip c => rfl
  | query nBlockHeight =>
    simp only [chainStep, askStep, getBlockHash_eq]
    cases w.1.activeHash nBlockHeight with
    | none => rfl
    | some hash =>
      simp only [AssocMap.insertNew]
      cases w.2.lookup (w.1.asked nBlockHeight) with
      | none => rfl
      | some cached => rfl

theorem tip_isSome_of_activeHash {c : LinkedChain} {nBlockHeight : Int} {hash : UInt256}
    (active : c.activeHash nBlockHeight = some hash) : ∃ pindex, c.tip = some pindex := by
  rcases tip_cases c with ⟨-, empty⟩ | ⟨-, pindex, tip, -⟩
  · unfold LinkedChain.activeHash CChain.atHeight at active
    split at active
    · cases active
    · rw [empty] at active
      cases active
  · exact ⟨pindex, tip⟩

theorem answersRight_iff_sameBlock (w : LinkedChain × AssocMap Int UInt256) (a : ChainAction) :
    AnswersRight w a ↔ SameBlock w a := by
  cases a with
  | setTip c => exact Iff.rfl
  | query nBlockHeight =>
    simp only [AnswersRight, SameBlock, calculateScore, activeScore, getBlockHash_eq]
    cases active : w.1.activeHash nBlockHeight with
    | none =>
      simp only [reduceCtorEq, false_implies, implies_true, true_and, iff_true]
      intro sha mn
      cases w.1.tip with
      | none => rfl
      | some pindex => rfl
    | some hash =>
      obtain ⟨pindex, tip⟩ := tip_isSome_of_activeHash active
      simp only [tip]
      cases cached : w.2.lookup (w.1.asked nBlockHeight) with
      | none => simp
      | some first =>
        constructor
        · rintro ⟨right, -⟩ hash' first' ⟨⟩ ⟨⟩
          exact (Option.some.inj (right first rfl)).symm
        · intro same
          obtain rfl := same hash first rfl rfl
          exact ⟨fun _ => id, fun _ _ => rfl⟩

/-- From an empty cache, every answer over a sequence of tip changes and queries is the active
chain's exactly if every query asks for a height with the block it had at the first one. -/
theorem answersRight_iff (start : LinkedChain) (actions : List ChainAction) :
    AllSteps chainStep AnswersRight (start, ∅) actions ↔
      AllSteps askStep SameBlock (start, ∅) actions := by
  rw [chainStep_eq_askStep]
  constructor
  · exact AllSteps.mono fun w a => (answersRight_iff_sameBlock w a).mp
  · exact AllSteps.mono fun w a => (answersRight_iff_sameBlock w a).mpr

def forkedIndex : BlockMap :=
  ((AList.insert 1 { phashBlock := some 1 } ∅ : BlockMap).insert 2
    { phashBlock := some 2, pprev := some 1, nHeight := 1 }).insert 3
    { phashBlock := some 3, pprev := some 1, nHeight := 1 }

theorem forkedIndex_lookup {hash : UInt256} {pindex : CBlockIndex}
    (found : forkedIndex.lookup hash = some pindex) :
    (hash = 1 ∧ pindex = { phashBlock := some 1 }) ∨
      (hash ≠ 1 ∧ pindex = { phashBlock := some hash, pprev := some 1, nHeight := 1 }) := by
  simp only [forkedIndex, AssocMap.lookup_insert_eq] at found
  split at found
  · rename_i equal
    subst equal
    exact Or.inr ⟨by decide, (Option.some.inj found).symm⟩
  split at found
  · rename_i equal
    subst equal
    exact Or.inr ⟨by decide, (Option.some.inj found).symm⟩
  split at found
  · rename_i equal
    exact Or.inl ⟨equal, (Option.some.inj found).symm⟩
  · cases found

theorem forkedIndex_wellFormed : forkedIndex.WellFormed where
  filed {hash pindex} found := by
    rcases forkedIndex_lookup found with ⟨rfl, rfl⟩ | ⟨-, rfl⟩
    · rfl
    · rfl
  parent {hash pindex hashPrev} found prev := by
    rcases forkedIndex_lookup found with ⟨rfl, rfl⟩ | ⟨-, rfl⟩
    · cases prev
    · cases prev
      exact ⟨{ phashBlock := some 1 }, by decide, rfl⟩
  root {hash pindex} found prev := by
    rcases forkedIndex_lookup found with ⟨rfl, rfl⟩ | ⟨-, rfl⟩
    · rfl
    · cases prev

def forkedChain (child : UInt256) (found : forkedIndex.lookup child =
    some { phashBlock := some child, pprev := some 1, nHeight := 1 }) : LinkedChain where
  mapBlockIndex := forkedIndex
  chainActive := ⟨[1, child]⟩
  wellFormed := forkedIndex_wellFormed
  linked := ⟨by
    intro i hash here
    match i with
    | 0 =>
      obtain rfl := Option.some.inj here
      exact ⟨{ phashBlock := some 1 }, by decide, rfl, rfl⟩
    | 1 =>
      obtain rfl := Option.some.inj here
      exact ⟨_, found, rfl, rfl⟩
    | i + 2 => simp at here⟩

/-- After a reorganisation the hash of the block that was replaced is still given. -/
theorem reorganised_answer_stale :
    ¬ ∀ start actions, AllSteps chainStep AnswersRight (start, ∅) actions := by
  intro claim
  have right := (claim (forkedChain 2 (by decide))
    [.query 1, .setTip (forkedChain 3 (by decide)), .query 1]).2.2.1.1
  have active := right 2 (by decide)
  exact absurd active (by decide)

end Esbcoin
