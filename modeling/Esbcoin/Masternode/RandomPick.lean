import Mathlib.Data.Int.CardIntervalMod
import Esbcoin.Masternode.Ranks

namespace Esbcoin

open List

/-- A 64-bit value that becomes an `int`. -/
def narrowInt (n : Nat) : Int := (BitVec.ofNat 32 n).toInt

theorem narrowInt_eq (n : Nat) :
    narrowInt n = if 2 * (n % 2 ^ 32) < 2 ^ 32 then ((n % 2 ^ 32 : Nat) : Int)
      else ((n % 2 ^ 32 : Nat) : Int) - 2 ^ 32 := by
  rw [narrowInt, BitVec.toInt_eq_toNat_cond, BitVec.toNat_ofNat]
  rfl

theorem narrowInt_of_small {n : Nat} (small : n < 2 ^ 31) : narrowInt n = n := by
  rw [narrowInt_eq]
  split <;> omega

/-- What a call of `FindRandomNotInVec` is given. -/
structure RandomPick where
  chainHeight : Int
  mns : MasternodeList
  mnlevel : Nat
  vecToExclude : List CTxIn
  protocolVersion : Int

namespace RandomPick

variable (p : RandomPick)

/-- The protocol that is asked for (`masternodeman.cpp:704`). -/
def minProtocol : Int :=
  if p.protocolVersion = -1 then activeProtocol p.chainHeight else p.protocolVersion

/-- `nCountEnabled - vecToExclude.size()` (`masternodeman.cpp:706-708`), in 64 bits without sign. -/
def leftOver : BitVec 64 :=
  BitVec.ofInt 64 (narrowInt
      (countEnabled p.mns.vMasternodes p.mnlevel p.minProtocol p.chainHeight)) -
    BitVec.ofNat 64 p.vecToExclude.length

/-- The parameter of `GetRandInt` (`random.cpp:108`). -/
def nMax : Int := narrowInt p.leftOver.toNat

/-- How many values `GetRand` draws from (`random.cpp:93-106`); 0 is returned where it draws from
none. -/
def draws : Nat := max 1 (BitVec.ofInt 64 p.nMax).toNat

/-- The loop (`masternodeman.cpp:714-731`). -/
def loop : Int → List CMasternode → Option CMasternode
  | _, [] => none
  | rand, mn :: rest =>
    if p.mnlevel ≠ CMasternode.UNSPECIFIED ∧ mn.level p.chainHeight ≠ p.mnlevel then loop rand rest
    else if mn.protocolVersion < p.minProtocol ∨ mn.isEnabled = false then loop rand rest
    else if p.vecToExclude.any fun usedVin => mn.vin.prevout == usedVin.prevout then loop rand rest
    else if rand - 1 < 1 then some mn
    else loop (rand - 1) rest

/-- `CMasternodeMan::FindRandomNotInVec` (`masternodeman.cpp:700-734`) where `GetRand` returns
`draw`. -/
def findRandomNotInVec (draw : Nat) : Option CMasternode :=
  if p.leftOver < 1 then none else p.loop (narrowInt draw) p.mns.vMasternodes

/-- `FindRandomNotInVec` may return the masternode. -/
def isEligible (mn : CMasternode) : Bool :=
  (p.mnlevel == CMasternode.UNSPECIFIED || mn.level p.chainHeight == p.mnlevel) &&
    decide (mn.protocolVersion ≥ p.minProtocol) && mn.isEnabled &&
    !p.vecToExclude.any fun usedVin => mn.vin.prevout == usedVin.prevout

/-- The masternodes that are left over. -/
def eligible : List CMasternode := p.mns.vMasternodes.filter p.isEligible

/-- How many draws give the masternode. -/
def timesDrawn (mn : CMasternode) : Nat :=
  p.draws.count fun draw => p.findRandomNotInVec draw = some mn

/-- Null is returned if and only if nobody is eligible, and all who are have the same number of
draws. -/
structure Fair : Prop where
  null : ∀ draw < p.draws, p.findRandomNotInVec draw = none ↔ p.eligible = []
  even : ∀ mn ∈ p.eligible, ∀ mn' ∈ p.eligible, p.timesDrawn mn = p.timesDrawn mn'

/-! ## The countdown -/

/-- The loop over those who are not skipped. -/
def countdown : Int → List CMasternode → Option CMasternode
  | _, [] => none
  | rand, mn :: rest => if rand - 1 < 1 then some mn else countdown (rand - 1) rest

theorem loop_eq (rand : Int) (vMasternodes : List CMasternode) :
    p.loop rand vMasternodes = countdown rand (vMasternodes.filter p.isEligible) := by
  induction vMasternodes generalizing rand with
  | nil => rfl
  | cons mn rest ih =>
    rw [loop]
    by_cases level : p.mnlevel ≠ CMasternode.UNSPECIFIED ∧ mn.level p.chainHeight ≠ p.mnlevel
    · have skipped : ¬ p.isEligible mn = true := by
        simp only [isEligible, Bool.and_eq_true, Bool.or_eq_true, beq_iff_eq]
        rintro ⟨⟨⟨level', -⟩, -⟩, -⟩
        rcases level' with none | same
        · exact level.1 none
        · exact level.2 same
      rw [if_pos level, filter_cons_of_neg skipped, ih]
    rw [if_neg level]
    by_cases weak : mn.protocolVersion < p.minProtocol ∨ mn.isEnabled = false
    · have skipped : ¬ p.isEligible mn = true := by
        simp only [isEligible, Bool.and_eq_true, decide_eq_true_eq]
        rintro ⟨⟨⟨-, version⟩, enabled⟩, -⟩
        rcases weak with old | off
        · omega
        · rw [enabled] at off
          cases off
      rw [if_pos weak, filter_cons_of_neg skipped, ih]
    rw [if_neg weak]
    cases used : p.vecToExclude.any fun usedVin => mn.vin.prevout == usedVin.prevout with
    | true =>
      have skipped : ¬ p.isEligible mn = true := by
        rw [isEligible, used, Bool.not_true, Bool.and_false]
        exact Bool.false_ne_true
      rw [if_pos rfl, filter_cons_of_neg skipped, ih]
    | false =>
      have taken : p.isEligible mn = true := by
        simp only [isEligible, used, Bool.and_eq_true, Bool.or_eq_true, beq_iff_eq,
          decide_eq_true_eq, Bool.not_false, and_true]
        refine ⟨⟨?_, by omega⟩, ?_⟩
        · by_contra neither
          exact level ⟨fun none => neither (Or.inl none), fun same => neither (Or.inr same)⟩
        · cases enabled : mn.isEnabled with
          | true => rfl
          | false => exact absurd (Or.inr enabled) weak
      rw [if_neg Bool.false_ne_true, filter_cons_of_pos taken, countdown, ih]

theorem find_eq (draw : Nat) :
    p.findRandomNotInVec draw =
      if p.leftOver < 1 then none else countdown (narrowInt draw) p.eligible := by
  rw [findRandomNotInVec, loop_eq]
  rfl

theorem mem_of_countdown {rand : Int} {l : List CMasternode} {mn : CMasternode}
    (found : countdown rand l = some mn) : mn ∈ l := by
  induction l generalizing rand with
  | nil => cases found
  | cons first rest ih =>
    rw [countdown] at found
    split at found
    · rw [Option.some.inj found]
      exact mem_cons_self
    · exact mem_cons_of_mem _ (ih found)

/-! ## Counting draws -/

theorem draws_pos : 0 < p.draws := by
  unfold draws
  omega

/-- At most two values, or a third one. -/
theorem draws_cases :
    (p.nMax = 0 ∨ p.nMax = 1 ∨ p.nMax = 2) ∧ p.draws ≤ 2 ∨
      ¬ (p.nMax = 0 ∨ p.nMax = 1 ∨ p.nMax = 2) ∧ 2 < p.draws := by
  have range : -2 ^ 31 ≤ p.nMax ∧ p.nMax < 2 ^ 31 := by
    unfold nMax
    rw [narrowInt_eq]
    split <;> omega
  unfold draws
  rw [BitVec.toNat_ofInt]
  omega

/-- Counts of two properties that exclude each other. -/
theorem count_or {q r : Nat → Prop} [DecidablePred q] [DecidablePred r]
    (apart : ∀ n, q n → ¬ r n) (n : Nat) :
    n.count (fun k => q k ∨ r k) = n.count q + n.count r := by
  induction n with
  | zero => simp
  | succ n ih =>
    rw [Nat.count_succ, Nat.count_succ, Nat.count_succ, ih]
    by_cases first : q n
    · have := apart n first
      simp [first, this]
      omega
    by_cases second : r n
    · simp [first, second]
      omega
    · simp [first, second]

/-- Below any bound there are more values that stand for 0 or 1 than that stand for 2. -/
theorem count_two_lt {n : Nat} (positive : 0 < n) :
    n.count (fun k => k ≡ 2 [MOD 2 ^ 32]) <
      n.count (fun k => k ≡ 0 [MOD 2 ^ 32] ∨ k ≡ 1 [MOD 2 ^ 32]) := by
  have apart : ∀ k, k ≡ 0 [MOD 2 ^ 32] → ¬ k ≡ 1 [MOD 2 ^ 32] := by
    intro k zero one
    exact absurd (zero.symm.trans one) (by decide)
  rw [count_or apart, Nat.count_modEq_card _ (by decide), Nat.count_modEq_card _ (by decide),
    Nat.count_modEq_card _ (by decide)]
  split <;> split <;> split <;> omega

theorem narrowInt_le_one {n : Nat} (small : n ≡ 0 [MOD 2 ^ 32] ∨ n ≡ 1 [MOD 2 ^ 32]) :
    narrowInt n ≤ 1 := by
  unfold Nat.ModEq at small
  rw [narrowInt_eq]
  split <;> omega

theorem narrowInt_eq_two {n : Nat} (two : narrowInt n = 2) : n ≡ 2 [MOD 2 ^ 32] := by
  unfold Nat.ModEq
  rw [narrowInt_eq] at two
  split at two <;> omega

theorem timesDrawn_lt {first second : CMasternode} {rest : List CMasternode}
    (several : p.eligible = first :: second :: rest) (some : ¬ p.leftOver < 1) :
    p.timesDrawn second < p.timesDrawn first := by
  have distinct : (first :: second :: rest).Nodup := by
    rw [← several]
    exact (List.Nodup.of_map _ p.mns.distinct).filter _
  obtain ⟨firstOut, distinctRest⟩ := nodup_cons.mp distinct
  have secondOut := (nodup_cons.mp distinctRest).1
  have ne : first ≠ second := fun equal => firstOut (equal ▸ mem_cons_self)
  have atTwo : p.timesDrawn second ≤ p.draws.count fun k => k ≡ 2 [MOD 2 ^ 32] := by
    refine Nat.count_mono_left fun draw _ drawn => narrowInt_eq_two ?_
    rw [find_eq, if_neg some, several, countdown, countdown] at drawn
    by_cases one : narrowInt draw - 1 < 1
    · rw [if_pos one] at drawn
      exact absurd (Option.some.inj drawn) ne
    rw [if_neg one] at drawn
    by_cases two : narrowInt draw - 1 - 1 < 1
    · omega
    · rw [if_neg two] at drawn
      exact absurd (mem_of_countdown drawn) secondOut
  have atOne : (p.draws.count fun k => k ≡ 0 [MOD 2 ^ 32] ∨ k ≡ 1 [MOD 2 ^ 32]) ≤
      p.timesDrawn first := by
    refine Nat.count_mono_left fun draw _ small => ?_
    have := narrowInt_le_one small
    rw [find_eq, if_neg some, several, countdown, if_pos (by omega)]
  exact Nat.lt_of_le_of_lt atTwo (Nat.lt_of_lt_of_le (count_two_lt p.draws_pos) atOne)

/-- The choice is fair if and only if nobody is eligible, or one is and the draw is from at most two
values. -/
theorem fair_iff :
    p.Fair ↔ p.eligible = [] ∨
      (∃ mn, p.eligible = [mn]) ∧ p.leftOver ≠ 0 ∧ (p.nMax = 0 ∨ p.nMax = 1 ∨ p.nMax = 2) := by
  have none_left : p.leftOver < 1 ↔ p.leftOver = 0 := by
    rw [BitVec.lt_def, ← BitVec.toNat_inj]
    show p.leftOver.toNat < 1 ↔ p.leftOver.toNat = 0
    omega
  cases all : p.eligible with
  | nil =>
    refine iff_of_true ⟨fun draw _ => ?_, ?_⟩ (Or.inl rfl)
    · rw [find_eq, all]
      refine iff_of_true ?_ rfl
      split <;> rfl
    · intro mn member
      rw [all] at member
      cases member
  | cons first rest =>
    have somebody : first :: rest ≠ [] := cons_ne_nil _ _
    by_cases stops : p.leftOver < 1
    · -- null for every draw
      refine iff_of_false (fun fair => ?_) ?_
      · have null := (fair.null 0 p.draws_pos).mp (by rw [find_eq, if_pos stops])
        exact somebody (all ▸ null)
      · rintro (empty | ⟨-, nonzero, -⟩)
        · cases empty
        · exact nonzero (none_left.mp stops)
    cases rest with
    | cons second rest =>
      refine iff_of_false (fun fair => ?_) ?_
      · have even := fair.even first (all ▸ mem_cons_self) second
          (all ▸ mem_cons_of_mem _ mem_cons_self)
        have := p.timesDrawn_lt all stops
        omega
      · rintro (empty | ⟨⟨mn, one⟩, -⟩)
        · cases empty
        · cases one
    | nil =>
      have found : ∀ draw, p.findRandomNotInVec draw =
          if narrowInt draw - 1 < 1 then some first else none := by
        intro draw
        rw [find_eq, if_neg stops, all]
        rfl
      rcases p.draws_cases with ⟨few, bound⟩ | ⟨many, third⟩
      · refine iff_of_true ⟨fun draw below => ?_, ?_⟩
          (Or.inr ⟨⟨first, rfl⟩, fun zero => stops (none_left.mpr zero), few⟩)
        · rw [found, narrowInt_of_small (by omega), if_pos (by omega), all]
          exact iff_of_false (fun never => nomatch never) somebody
        · intro mn member mn' member'
          rw [all, mem_singleton] at member member'
          rw [member, member']
      refine iff_of_false (fun fair => ?_) ?_
      · have null := (fair.null 2 third).mp (by
          rw [found, narrowInt_of_small (by decide), if_neg (by decide)])
        exact somebody (all ▸ null)
      · rintro (empty | ⟨-, -, few⟩)
        · cases empty
        · exact many few

end RandomPick

/-! ## Two masternodes -/

/-- An enabled masternode of the first level. -/
def pickable (n : UInt256) : CMasternode where
  vin := { prevout := ⟨n, 0⟩ }
  payee := []
  pubKeyMasternode := []
  isEnabled := true
  deposit := 5000 * COIN
  sigTime := 0
  protocolVersion := 70225

def pickOfTwo : RandomPick where
  chainHeight := 700000
  mns := ⟨[pickable 1, pickable 2], by decide +kernel⟩
  mnlevel := 1
  vecToExclude := []
  protocolVersion := -1

/-- Both draws return the first. -/
theorem second_never_picked : ¬ pickOfTwo.Fair := by
  intro fair
  have even := fair.even (pickable 1) (by decide +kernel) (pickable 2) (by decide +kernel)
  revert even
  decide +kernel

end Esbcoin
