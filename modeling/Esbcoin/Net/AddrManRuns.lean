import Esbcoin.Net.AddrManOps
import Esbcoin.Net.AddrManReload

/-!
# Runs of the address manager

Any sequence of the operations of `CAddrMan` (`src/addrman.h:458-617`), and of restarts that write
it to the disk and read it back into a new one, leaves it consistent as long as the numbers of the
entries fit their `int`: `Check_` passes behind every operation.
-/

namespace Esbcoin

open SlotTable CrossIndex

/-- What is done with an address manager, with all that the environment decides. -/
inductive AddrManOp where
  | add (addr : CAddress) (source : CNetAddr) (nTimePenalty : Int) (draws : CAddrMan.AddDraws)
  | good (addr : CService) (nTime : Int64) (nRnd : Nat)
  | attempt (addr : CService) (nTime : Int64)
  | connected (addr : CService) (nTime : Int64)
  | select (fTried : Bool) (draws : List CAddrMan.SelectDraw)
  | getAddr (nRnd : Nat → Nat) (nNow : Nat → Int)
  | reload (nVersion : Int32) (nKey : UInt256)

/-- The times that `Good_` and `Attempt_` are given are times behind the epoch. -/
def AddrManOp.Timely : AddrManOp → Prop
  | .good _ nTime _ => 0 < nTime
  | .attempt _ nTime => 0 ≤ nTime
  | _ => True

/-- How many numbers are given behind the operation at most, of `n` before it. -/
def AddrManOp.numbers (n : Nat) : AddrManOp → Nat
  | .add .. => n + 1
  | .reload .. => CAddrMan.Tracked.reloadedIds
  | _ => n

/-- Behind every operation the numbers given, of `n` at the start, are fewer than an `int` can
count: a new one with each `Add_`, and one for each slot of the tables with a restart. -/
def AddrManOp.Room : Nat → List AddrManOp → Prop
  | _, [] => True
  | n, op :: ops => op.numbers n < 2 ^ 31 ∧ Room (op.numbers n) ops

namespace CAddrMan

/-- `CAddrDB::Write` and, in a new address manager, `CAddrDB::Read` (`net.cpp:1842-1929`). -/
def reload (hashLow64 : List UInt8 → UInt64) (s : CAddrMan) (nVersion : Int32)
    (nKey : UInt256) : Option CAddrMan :=
  (s.serialize nVersion).bind fun bytes =>
    ((init nKey).unserialize hashLow64 nKey bytes).map Prod.fst

/-- One operation; `none` is a failed assertion or a failed read. -/
def addrManStep (hashLow64 : List UInt8 → UInt64) (s : CAddrMan) : AddrManOp → Option CAddrMan
  | .add addr source nTimePenalty draws =>
    (s.add hashLow64 addr source nTimePenalty draws).map Prod.snd
  | .good addr nTime nRnd => s.good hashLow64 addr nTime nRnd
  | .attempt addr nTime => some (s.attempt addr nTime)
  | .connected addr nTime => some (s.connected addr nTime)
  | .select fTried draws => (s.select fTried draws).map fun _ => s
  | .getAddr nRnd nNow => (s.getAddr nRnd nNow).map Prod.snd
  | .reload nVersion nKey => s.reload hashLow64 nVersion nKey

/-! ## The key stays, and so does the next number -/

/-- What only `Add_` changes, of which it leaves the key. -/
def fixed (s : CAddrMan) : UInt256 × Nat := (s.nKey, s.nIdCount)

section fixed

variable {hashLow64 : List UInt8 → UInt64} {s s' : CAddrMan}

theorem swapRandom_fixed {i j : Nat} (done : s.swapRandom i j = some s') : s'.fixed = s.fixed := by
  unfold swapRandom at done
  split at done
  · rw [Option.some.inj done]
  split at done
  · split at done
    · rw [← Option.some.inj done]
      rfl
    · cases done
  · cases done

theorem delete_fixed {nId : Nat} (done : s.delete nId = some s') : s'.fixed = s.fixed := by
  unfold delete at done
  split at done
  · cases done
  split at done
  · cases done
  · obtain ⟨swapped, hswap, rfl⟩ := Option.map_eq_some_iff.mp done
    have same := swapRandom_fixed hswap
    exact same

theorem clearNew_fixed {slot : NewSlot} (done : s.clearNew slot = some s') :
    s'.fixed = s.fixed := by
  unfold clearNew at done
  split at done
  · rw [Option.some.inj done]
  split at done
  · cases done
  split at done
  · split at done
    · have same := delete_fixed done
      exact same
    · rw [← Option.some.inj done]
      rfl
  · cases done

theorem leaveBuckets_fixed (info : CAddrInfo) (nId : Nat)
    (buckets : List (Fin ADDRMAN_NEW_BUCKET_COUNT)) :
    (s.leaveBuckets hashLow64 info nId buckets).fixed = s.fixed := by
  apply List.foldlRecOn (motive := fun s' : CAddrMan => s'.fixed = s.fixed) buckets _ rfl
  intro s' same bucket _
  simp only
  split
  · exact same
  · exact same

theorem evictTried_fixed {slot : TriedSlot} (done : s.evictTried hashLow64 slot = some s') :
    s'.fixed = s.fixed := by
  unfold evictTried at done
  split at done
  · rw [Option.some.inj done]
  split at done
  · cases done
  simp only at done
  split at done
  · cases done
  rename_i cleared hclear
  split at done
  · rw [← Option.some.inj done]
    have same := clearNew_fixed hclear
    exact same
  · cases done

theorem makeTried_fixed {info : CAddrInfo} {nId : Nat}
    (done : s.makeTried hashLow64 info nId = some s') : s'.fixed = s.fixed := by
  unfold makeTried at done
  generalize List.finRange ADDRMAN_NEW_BUCKET_COUNT = buckets at done
  simp only at done
  split at done
  · cases done
  split at done
  · cases done
  split at done
  · cases done
  rename_i evicted hevict
  split at done
  · rw [← Option.some.inj done]
    have same := evictTried_fixed hevict
    exact Eq.trans same (leaveBuckets_fixed info nId buckets)
  · cases done

theorem good_fixed {addr : CService} {nTime : Int64} {nRnd : Nat}
    (done : s.good hashLow64 addr nTime nRnd = some s') : s'.fixed = s.fixed := by
  unfold good at done
  split at done
  · rw [Option.some.inj done]
  split at done
  · rw [Option.some.inj done]
  simp only at done
  split at done
  · rw [← Option.some.inj done]
    rfl
  split at done
  · rw [← Option.some.inj done]
    rfl
  · have same := makeTried_fixed done
    exact same

theorem addToBucket_fixed {nId : Nat} {source : CNetAddr} {nLater : Int}
    (done : s.addToBucket hashLow64 nId source nLater = some s') : s'.fixed = s.fixed := by
  unfold addToBucket at done
  split at done
  · cases done
  simp only at done
  split at done
  · rw [← Option.some.inj done]
    rfl
  split at done
  · rw [Option.some.inj done]
  split at done
  · cases done
  split at done
  · obtain ⟨cleared, hclear, rfl⟩ := Option.map_eq_some_iff.mp done
    have same := clearNew_fixed hclear
    exact same
  · split at done
    · exact delete_fixed done
    · rw [Option.some.inj done]

theorem add_fixed {addr : CAddress} {source : CNetAddr} {nTimePenalty : Int} {draws : AddDraws}
    {result : Bool × CAddrMan} (done : s.add hashLow64 addr source nTimePenalty draws =
      some result) :
    result.2.fixed = s.fixed ∨ result.2.fixed = (s.nKey, nextId s.nIdCount) := by
  unfold add at done
  split at done
  · rw [← Option.some.inj done]
    exact .inl rfl
  split at done
  · simp only at done
    split at done
    · rw [← Option.some.inj done]
      exact .inl rfl
    · obtain ⟨after, hadd, rfl⟩ := Option.map_eq_some_iff.mp done
      have same := addToBucket_fixed hadd
      exact .inl same
  · obtain ⟨after, hadd, rfl⟩ := Option.map_eq_some_iff.mp done
    have same := addToBucket_fixed hadd
    exact .inr same

theorem attempt_fixed (addr : CService) (nTime : Int64) : (s.attempt addr nTime).fixed = s.fixed := by
  unfold attempt
  split
  · rfl
  · split
    · rfl
    · rfl

theorem connected_fixed (addr : CService) (nTime : Int64) :
    (s.connected addr nTime).fixed = s.fixed := by
  unfold connected
  split
  · rfl
  · split
    · rfl
    · rfl

theorem getAddrFrom_fixed (nNodes : Nat) (nRnd : Nat → Nat) (nNow : Nat → Int) (left n : Nat)
    (vAddr : List CAddress) {result : List CAddress × CAddrMan}
    (done : getAddrFrom nNodes nRnd nNow left n s vAddr = some result) :
    result.2.fixed = s.fixed := by
  induction left generalizing n s vAddr with
  | zero => rw [← Option.some.inj done]
  | succ left ih =>
    rw [getAddrFrom] at done
    split at done
    · rw [← Option.some.inj done]
    split at done
    · cases done
    rename_i swapped hswap
    split at done
    · cases done
    · exact (ih (n + 1) _ done).trans (swapRandom_fixed hswap)

end fixed

/-! ## Every run -/

/-- What every operation keeps. -/
structure Sound (hashLow64 : List UInt8 → UInt64) (s : CAddrMan) : Prop where
  tracked : Tracked hashLow64 ∅ 0 0 s
  key : s.nKey ≠ 0

namespace Sound

variable {hashLow64 : List UInt8 → UInt64} {s : CAddrMan}

theorem init {nKey : UInt256} (key : nKey ≠ 0) : Sound hashLow64 (init nKey) where
  key := key
  tracked := by
    refine ⟨⟨nofun, fun _ _ => ⟨nofun, nofun⟩, ?_⟩, nofun, nofun, nofun, rfl, rfl⟩
    intro k p
    constructor
    · nofun
    · rintro ⟨i, -, here⟩
      cases here

theorem reload (sound : Sound hashLow64 s) (nVersion : Int32) (nKey : UInt256) :
    ∃ s', s.reload hashLow64 nVersion nKey = some s' ∧ Sound hashLow64 s' ∧
      s'.nIdCount ≤ Tracked.reloadedIds ∧ ∀ addr, (s'.find addr).map (fun found => found.2.onDisk) =
        (s.find addr).map fun found => found.2.onDisk := by
  obtain ⟨bytes, written, back⟩ := sound.tracked.reload nVersion nKey
  obtain ⟨s', result, tracked, key, ids, known⟩ := back []
  refine ⟨s', ?_, ⟨tracked, key ▸ sound.key⟩, ids, known⟩
  rw [List.append_nil] at result
  rw [CAddrMan.reload, written, Option.bind_some, result]
  rfl

theorem step (sound : Sound hashLow64 s) (op : AddrManOp) (timely : op.Timely) {n : Nat}
    (ids : s.nIdCount ≤ n) (room : op.numbers n < 2 ^ 31) :
    ∃ s', s.addrManStep hashLow64 op = some s' ∧ Sound hashLow64 s' ∧
      s'.nIdCount ≤ op.numbers n := by
  have tracked := sound.tracked
  have kept : ∀ s' : CAddrMan, Tracked hashLow64 ∅ 0 0 s' → s'.fixed = s.fixed →
      Sound hashLow64 s' ∧ s'.nIdCount ≤ n := by
    intro s' tracked' same
    obtain ⟨nKey, nIdCount⟩ := Prod.mk.inj same
    exact ⟨⟨tracked', nKey ▸ sound.key⟩, nIdCount ▸ ids⟩
  cases op with
  | add addr source nTimePenalty draws =>
    have room : n + 1 < 2 ^ 31 := room
    have roomOf : s.nIdCount + 1 < 2 ^ 32 := by omega
    obtain ⟨result, done, tracked'⟩ := tracked.add roomOf addr source nTimePenalty draws
    refine ⟨result.2, congrArg (Option.map Prod.snd) done, ?_⟩
    rcases add_fixed done with same | next
    · exact (kept _ tracked' same).imp_right Nat.le_succ_of_le
    obtain ⟨nKey, nIdCount⟩ := Prod.mk.inj next
    refine ⟨⟨tracked', nKey ▸ sound.key⟩, ?_⟩
    rw [nIdCount, nextId_of_lt roomOf]
    exact Nat.succ_le_succ ids
  | good addr nTime nRnd =>
    obtain ⟨s', done, tracked'⟩ := tracked.good addr timely nRnd
    exact ⟨s', done, kept _ tracked' (good_fixed done)⟩
  | attempt addr nTime =>
    exact ⟨_, rfl, kept _ (tracked.attempt addr timely) (attempt_fixed addr nTime)⟩
  | connected addr nTime =>
    exact ⟨_, rfl, kept _ (tracked.connected addr nTime) (connected_fixed addr nTime)⟩
  | select fTried draws =>
    obtain ⟨chosen, done⟩ := Option.isSome_iff_exists.mp (tracked.select fTried draws)
    exact ⟨s, congrArg (Option.map fun _ => s) done, sound, ids⟩
  | getAddr nRnd nNow =>
    obtain ⟨result, done, tracked'⟩ := tracked.getAddr nRnd nNow
    exact ⟨result.2, congrArg (Option.map Prod.snd) done,
      kept _ tracked' (getAddrFrom_fixed _ _ _ _ _ _ done)⟩
  | reload nVersion nKey =>
    obtain ⟨s', done, sound', ids', -⟩ := sound.reload nVersion nKey
    exact ⟨s', done, sound', ids'⟩

/-- No operation of a run fails, and behind all of them the state is sound. -/
theorem run (sound : Sound hashLow64 s) (ops : List AddrManOp) (timely : ∀ op ∈ ops, op.Timely)
    {n : Nat} (ids : s.nIdCount ≤ n) (room : AddrManOp.Room n ops) :
    ∃ s', StepRun.run (StepRun.orFail (addrManStep hashLow64)) (some s) ops = some s' ∧
      Sound hashLow64 s' := by
  induction ops generalizing s n with
  | nil => exact ⟨s, rfl, sound⟩
  | cons op ops ih =>
    obtain ⟨first, timely⟩ := List.forall_mem_cons.mp timely
    obtain ⟨s₁, done, sound₁, ids₁⟩ := sound.step op first ids room.1
    obtain ⟨s', result, sound'⟩ := ih sound₁ timely ids₁ room.2
    refine ⟨s', ?_, sound'⟩
    rw [StepRun.run_cons, StepRun.orFail, Option.bind_some, done]
    exact result

end Sound

/-- Behind every run of operations the address manager is consistent and `Check_` passes, and what
is then written to the disk is read back as one with the same addresses. -/
theorem run_consistent (hashLow64 : List UInt8 → UInt64) {key : UInt256} (notNull : key ≠ 0)
    (ops : List AddrManOp) (timely : ∀ op ∈ ops, op.Timely) (room : AddrManOp.Room 0 ops) :
    ∃ s, StepRun.run (StepRun.orFail (addrManStep hashLow64)) (some (init key)) ops = some s ∧
      Consistent hashLow64 s ∧ s.check hashLow64 = 0 ∧
      ∀ nVersion nKey, ∃ s', s.reload hashLow64 nVersion nKey = some s' ∧
        Consistent hashLow64 s' ∧ s'.check hashLow64 = 0 ∧
        ∀ addr, (s'.find addr).map (fun found => found.2.onDisk) =
          (s.find addr).map fun found => found.2.onDisk := by
  obtain ⟨s, result, sound⟩ := (Sound.init notNull).run ops timely (Nat.le_refl 0) room
  refine ⟨s, result, sound.tracked.consistent, sound.tracked.check_eq_zero sound.key, ?_⟩
  intro nVersion nKey
  obtain ⟨s', done, sound', -, known⟩ := sound.reload nVersion nKey
  exact ⟨s', done, sound'.tracked.consistent, sound'.tracked.check_eq_zero sound'.key, known⟩

def publicAddress : CAddress :=
  ⟨⟨#v[0, 0, 0, 0, 0, 0, 0, 0, 0, 0, 255, 255, 8, 8, 8, 8], 9666⟩, 1, 1000, 0⟩

theorem run_consistent_learns :
    ∃ s, StepRun.run (StepRun.orFail (addrManStep fun _ => 0)) (some (init 1))
        [.add publicAddress publicAddress.service.ip 0 ⟨2000, 2000, 0⟩,
          .good publicAddress.service 2000 0] = some s ∧
      Consistent (fun _ => 0) s ∧ s.check (fun _ => 0) = 0 ∧
      ∀ nVersion nKey, ∃ s', s.reload (fun _ => 0) nVersion nKey = some s' ∧
        Consistent (fun _ => 0) s' ∧ s'.check (fun _ => 0) = 0 ∧
        ∀ addr, (s'.find addr).map (fun found => found.2.onDisk) =
          (s.find addr).map fun found => found.2.onDisk :=
  run_consistent (fun _ => 0) (show (1 : UInt256) ≠ 0 by decide) _ (by
    intro op member
    rcases List.mem_cons.mp member with rfl | member
    · trivial
    · obtain rfl := List.mem_singleton.mp member
      show (0 : Int64) < 2000
      decide) ⟨by decide, by decide, trivial⟩

/-- `Attempt_` with a time in front of the epoch leaves what `Check_` refuses. -/
theorem check_fails_after_early_attempt :
    ∃ s, StepRun.run (StepRun.orFail (addrManStep fun _ => 0)) (some (init 1))
        [.add publicAddress publicAddress.service.ip 0 ⟨2000, 2000, 0⟩,
          .attempt publicAddress.service (-1)] = some s ∧ s.check (fun _ => 0) = -6 := by
  refine ⟨_, rfl, ?_⟩
  decide +kernel

end CAddrMan

end Esbcoin
