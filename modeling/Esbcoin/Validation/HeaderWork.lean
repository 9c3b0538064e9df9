import Esbcoin.Chain.LoadBlockIndex
import Esbcoin.CompactValue
import Esbcoin.Validation.ConnectBlock

namespace Esbcoin

/-- The target that bits stand for is positive, fits in 256 bits and is within the limit. -/
structure TargetInRange (params : CChainParams) (nBits : UInt32) : Prop where
  notNegative : compactNegative nBits = false
  positive : 0 < compactValue nBits
  fits : compactValue nBits < 2 ^ 256
  withinLimit : compactValue nBits ≤ params.proofOfWorkLimit.toNat

/-- The hash meets a target that is in range. -/
def ProvesWork (params : CChainParams) (block : CBlock) : Prop :=
  block.getHash.toNat ≤ compactValue block.nBits ∧ TargetInRange params block.nBits

/-- The checks of a node that asks `CheckProofOfWork` of the source. -/
def provingWork (env : CheckEnv) : CheckEnv :=
  { env with checkProofOfWork := checkProofOfWork env.params }

theorem checkProofOfWork_iff {params : CChainParams} (on : params.skipProofOfWorkCheck = false)
    (hash : UInt256) (nBits : UInt32) :
    checkProofOfWork params hash nBits = true ↔ TargetInRange params nBits := by
  have fits := compactOverflow_eq_false_iff nBits
  have value := setCompact_toNat nBits
  have zero : (setCompact nBits == 0) = false ↔ (setCompact nBits).toNat ≠ 0 := by
    rw [beq_eq_false_iff_ne, ne_eq, ← BitVec.toNat_inj]
    rfl
  simp only [checkProofOfWork, on, Bool.false_or, Bool.not_eq_true', Bool.or_eq_false_iff,
    decide_eq_false_iff_not, gt_iff_lt, BitVec.lt_def, zero, fits, value]
  constructor
  · rintro ⟨⟨⟨notNegative, nonzero⟩, small⟩, within⟩
    rw [Nat.mod_eq_of_lt small] at nonzero within
    exact ⟨notNegative, by omega, small, by omega⟩
  · rintro ⟨notNegative, positive, small, within⟩
    rw [Nat.mod_eq_of_lt small]
    exact ⟨⟨⟨notNegative, by omega⟩, small⟩, by omega⟩

theorem checkBlockHeader_iff {env : CheckEnv} (on : env.params.skipProofOfWorkCheck = false)
    (block : CBlock) :
    checkBlockHeader (provingWork env) block true = .ok () ↔
      TargetInRange env.params block.nBits ∧ block.getBlockTime ≤ freezeTime := by
  have work := checkProofOfWork_iff on block.getHash block.nBits
  have passes : (!(provingWork env).checkProofOfWork block.getHash block.nBits) = false ↔
      TargetInRange env.params block.nBits := by
    rw [Bool.not_eq_false']
    exact work
  rw [checkBlockHeader, Bool.true_and, bind_ok_unit, rejectIf_eq_ok, rejectIf_eq_ok, passes,
    decide_eq_false_iff_not, gt_iff_lt, not_lt]

/-- Every accepted header of this hash and these bits proves work if and only if the hash is at most
the target, or the header is one that is turned away whatever its hash. -/
theorem accepted_header_proves_work_iff (env : CheckEnv)
    (on : env.params.skipProofOfWorkCheck = false) (block : CBlock) :
    (checkBlockHeader (provingWork env) block true = .ok () → ProvesWork env.params block) ↔
      (block.getHash.toNat ≤ compactValue block.nBits ∨
        ¬ TargetInRange env.params block.nBits ∨ freezeTime < block.getBlockTime) := by
  rw [checkBlockHeader_iff on]
  constructor
  · intro proves
    by_cases range : TargetInRange env.params block.nBits
    · by_cases early : block.getBlockTime ≤ freezeTime
      · exact Or.inl (proves ⟨range, early⟩).1
      · exact Or.inr (Or.inr (by omega))
    · exact Or.inr (Or.inl range)
  · rintro (proved | outside | late) ⟨range, early⟩
    · exact ⟨proved, range⟩
    · exact absurd range outside
    · omega

/-! ## A header without work -/

def checkingEnv : CheckEnv :=
  { lenientEnv.toCheckEnv with
    params := { mainParams with skipProofOfWorkCheck := false } }

def easyHeader (hash : UInt256) : CBlock where
  nVersion := 4
  hashPrevBlock := 7
  hashMerkleRoot := 0
  nTime := 1540000000
  nBits := 0x1e0fffff
  nNonce := 0
  hash
  vtx := []

theorem easyHeader_proves_work :
    checkBlockHeader (provingWork checkingEnv) (easyHeader 1) true = .ok () ∧
      ProvesWork checkingEnv.params (easyHeader 1) := by
  have accepted : checkBlockHeader (provingWork checkingEnv) (easyHeader 1) true = .ok () := by
    decide +kernel
  exact ⟨accepted, (accepted_header_proves_work_iff checkingEnv rfl (easyHeader 1)).mpr
    (Or.inl (by decide +kernel)) accepted⟩

/-- The largest hash passes. -/
theorem easyHeader_without_work :
    checkingEnv.params.skipProofOfWorkCheck = false ∧
      checkBlockHeader (provingWork checkingEnv) (easyHeader (BitVec.allOnes 256)) true = .ok () ∧
      ¬ ProvesWork checkingEnv.params (easyHeader (BitVec.allOnes 256)) := by
  refine ⟨rfl, by decide +kernel, ?_⟩
  rintro ⟨below, -⟩
  revert below
  decide +kernel

end Esbcoin
