import Esbcoin.Masternode.Manager
import Mathlib.Data.Finset.Max

/-!
# The key pool

Rendering of the key pool of the wallet (`src/wallet.cpp:2858-2954`) and of the `CReserveKey`s that
reserve its keys (`src/wallet.cpp:3101-3131`). A new key is filed behind the last index of the set,
or under 1 in an empty set; an index that is reserved is not in the set.
-/

namespace Esbcoin

open AssocMap Finset

/-- `CPubKey::IsValid` (`pubkey.h:134-137`). -/
def CPubKey.isValid (key : CPubKey) : Bool := !key.bytes.isEmpty

/-- The settings of the pool, what chance generates and what the file takes. -/
structure PoolEnv where
  /-- `GetArg("-keypool", 100)`. -/
  keypoolArg : Int
  fFileBacked : Bool
  /-- `GenerateNewKey` of a wallet with these keys, unless it throws. -/
  generateNewKey : List CPubKey → Option CPubKey
  generates : ∀ keys key, generateNewKey keys = some key → key ∉ keys ∧ key.isValid = true
  /-- `WritePool` of a key under an index. -/
  writePool : Int → CPubKey → Bool

/-- A `CReserveKey` whose `nIndex` is not `-1` (`wallet.h:581-603`). -/
structure CReserveKey where
  nIndex : Int
  vchPubKey : CPubKey
deriving DecidableEq

/-- The wallet as far as the pool goes. A record of the file is the `vchPubKey` of a `CKeyPool`,
whose `nTime` is not read here. -/
structure PoolState where
  locked : Bool := false
  setKeyPool : Finset Int := ∅
  /-- The pool records of the file. -/
  pool : AssocMap Int CPubKey := ∅
  /-- The keys of the key store. -/
  keys : List CPubKey := []
  reservekeys : AssocMap Nat CReserveKey := ∅
  /-- History: the key that was last created under an index. -/
  created : AssocMap Int CPubKey := ∅

/-- The exceptions, and the assertion that a key is valid. -/
inductive PoolError where
  | addKeyFailed
  | writingFailed
  | readFailed
  | unknownKey
  | invalidKey
deriving DecidableEq

/-- The last index of the set, or 0. -/
def PoolState.lastIndex (s : PoolState) : Int :=
  if filled : s.setKeyPool.Nonempty then s.setKeyPool.max' filled else 0

section Model

variable (env : PoolEnv)

/-- `CKeyPool(GenerateNewKey())` written behind the last index (`wallet.cpp:2876-2881`). -/
def addPoolKey (s : PoolState) : Except PoolError Unit × PoolState :=
  match env.generateNewKey s.keys with
  | none => (.error .addKeyFailed, s)
  | some key =>
    let nEnd := if filled : s.setKeyPool.Nonempty then s.setKeyPool.max' filled + 1 else 1
    if env.writePool nEnd key then
      (.ok (), {
        s with
        keys := key :: s.keys
        pool := s.pool.insert nEnd key
        created := s.created.insert nEnd key
        setKeyPool := insert nEnd s.setKeyPool })
    else (.error .writingFailed, { s with keys := key :: s.keys })

/-- How many keys are to be in the set: `nTargetSize + 1`, an `unsigned int`. -/
def targetSize (kpSize : UInt32) : Nat :=
  let nTargetSize := if kpSize > 0 then kpSize else UInt32.ofInt (max env.keypoolArg 0)
  (nTargetSize + 1).toNat

/-- The loop of `TopUpKeyPool`. -/
def topUpLoop (target : Nat) : Nat → PoolState → Except PoolError Unit × PoolState
  | 0, s => (.ok (), s)
  | fuel + 1, s =>
    if s.setKeyPool.card < target then
      match addPoolKey env s with
      | (.error e, s) => (.error e, s)
      | (.ok _, s) => topUpLoop target fuel s
    else (.ok (), s)

/-- `TopUpKeyPool` (`wallet.cpp:2858-2889`). The set grows with every turn, so there is a turn for
every key that is missing. -/
def topUpKeyPool (kpSize : UInt32) (s : PoolState) : Except PoolError Bool × PoolState :=
  if s.locked then (.ok false, s)
  else
    match topUpLoop env (targetSize env kpSize) (targetSize env kpSize) s with
    | (.error e, s) => (.error e, s)
    | (.ok _, s) => (.ok true, s)

/-- `ReserveKeyFromKeyPool` behind the top up (`wallet.cpp:2900-2914`): `nIndex`, and the key of
`keypool`. -/
def takeOldest (s : PoolState) : Int × Except PoolError CPubKey × PoolState :=
  if filled : s.setKeyPool.Nonempty then
    let nIndex := s.setKeyPool.min' filled
    let s := { s with setKeyPool := s.setKeyPool.erase nIndex }
    match s.pool.lookup nIndex with
    | none => (nIndex, .error .readFailed, s)
    | some vchPubKey =>
      if vchPubKey ∉ s.keys then (nIndex, .error .unknownKey, s)
      else if !vchPubKey.isValid then (nIndex, .error .invalidKey, s)
      else (nIndex, .ok vchPubKey, s)
  else (-1, .ok .invalid, s)

/-- `ReserveKeyFromKeyPool` (`wallet.cpp:2891-2916`). -/
def reserveKeyFromKeyPool (s : PoolState) : Int × Except PoolError CPubKey × PoolState :=
  if s.locked then takeOldest s
  else
    match topUpKeyPool env 0 s with
    | (.error e, s) => (-1, .error e, s)
    | (.ok _, s) => takeOldest s

/-- `CWallet::KeepKey` (`wallet.cpp:2918-2926`). -/
def keepIndex (nIndex : Int) (s : PoolState) : PoolState :=
  if env.fFileBacked then { s with pool := s.pool.erase nIndex } else s

/-- `CWallet::ReturnKey` (`wallet.cpp:2928-2936`). -/
def returnIndex (nIndex : Int) (s : PoolState) : PoolState :=
  { s with setKeyPool := insert nIndex s.setKeyPool }

/-- `GetKeyFromPool` (`wallet.cpp:2938-2955`): the key, where it returns `true`. -/
def getKeyFromPool (s : PoolState) : Except PoolError (Option CPubKey) × PoolState :=
  match reserveKeyFromKeyPool env s with
  | (_, .error e, s) => (.error e, s)
  | (nIndex, .ok key, s) =>
    if nIndex = -1 then
      if s.locked then (.ok none, s)
      else
        match env.generateNewKey s.keys with
        | none => (.error .addKeyFailed, s)
        | some key => (.ok (some key), { s with keys := key :: s.keys })
    else (.ok (some key), keepIndex env nIndex s)

/-- `CReserveKey::GetReservedKey` (`wallet.cpp:3101-3115`) of the `CReserveKey` under `r`. -/
def getReservedKey (r : Nat) (s : PoolState) : Except PoolError (Option CPubKey) × PoolState :=
  match s.reservekeys.lookup r with
  | some reservekey =>
    (if reservekey.vchPubKey.isValid then .ok (some reservekey.vchPubKey) else .error .invalidKey, s)
  | none =>
    match reserveKeyFromKeyPool env s with
    | (nIndex, .error e, s) =>
      (.error e, if nIndex = -1 then s
        else { s with reservekeys := s.reservekeys.insert r ⟨nIndex, .invalid⟩ })
    | (nIndex, .ok key, s) =>
      if nIndex = -1 then (.ok none, s)
      else
        (if key.isValid then .ok (some key) else .error .invalidKey,
          { s with reservekeys := s.reservekeys.insert r ⟨nIndex, key⟩ })

/-- `CReserveKey::KeepKey` (`wallet.cpp:3117-3123`). -/
def keepKey (r : Nat) (s : PoolState) : PoolState :=
  match s.reservekeys.lookup r with
  | some reservekey =>
    { keepIndex env reservekey.nIndex s with reservekeys := s.reservekeys.erase r }
  | none => s

/-- `CReserveKey::ReturnKey` (`wallet.cpp:3125-3131`), which the destructor calls as well. -/
def returnKey (r : Nat) (s : PoolState) : PoolState :=
  match s.reservekeys.lookup r with
  | some reservekey =>
    { returnIndex reservekey.nIndex s with reservekeys := s.reservekeys.erase r }
  | none => s

/-- What is done with the pool. -/
inductive PoolAction where
  | topUp (kpSize : UInt32)
  | reserve (r : Nat)
  | keep (r : Nat)
  | give (r : Nat)
  | getKey
  | lock
  | unlock
deriving DecidableEq

/-- What is thrown, if something is. -/
def thrown {α : Type} : Except PoolError α → Option PoolError
  | .error e => some e
  | .ok _ => none

/-- The error of an action. -/
def poolError (s : PoolState) : PoolAction → Option PoolError
  | .topUp kpSize => thrown (topUpKeyPool env kpSize s).1
  | .reserve r => thrown (getReservedKey env r s).1
  | .getKey => thrown (getKeyFromPool env s).1
  | .keep _ | .give _ | .lock | .unlock => none

/-- The wallet after an action. -/
def poolStep (s : PoolState) : PoolAction → PoolState
  | .topUp kpSize => (topUpKeyPool env kpSize s).2
  | .reserve r => (getReservedKey env r s).2
  | .keep r => keepKey env r s
  | .give r => returnKey r s
  | .getKey => (getKeyFromPool env s).2
  | .lock => { s with locked := true }
  | .unlock => { s with locked := false }

/-- The size that an action tops the pool up to. -/
def toppedTo (s : PoolState) : PoolAction → Nat
  | .topUp kpSize => if s.locked then 0 else targetSize env kpSize
  | .reserve r => if s.locked || s.reservekeys.contains r then 0 else targetSize env 0
  | .getKey => if s.locked then 0 else targetSize env 0
  | .keep _ | .give _ | .lock | .unlock => 0

/-- No reserved index is among those that the action creates keys under. -/
def CreatesApart (s : PoolState) (a : PoolAction) : Prop :=
  ∀ entry ∈ s.reservekeys.entries, ¬ (s.lastIndex < entry.2.nIndex ∧
    entry.2.nIndex ≤ s.lastIndex + ((toppedTo env s a - s.setKeyPool.card : Nat) : Int))

instance (s : PoolState) (a : PoolAction) : Decidable (CreatesApart env s a) :=
  inferInstanceAs (Decidable (∀ entry ∈ s.reservekeys.entries, ¬ (s.lastIndex < entry.2.nIndex ∧
    entry.2.nIndex ≤ s.lastIndex + ((toppedTo env s a - s.setKeyPool.card : Nat) : Int))))

end Model

/-! ## What is reserved stays apart -/

/-- Indices from 1 on, with their records, each of a valid key of its own that the wallet has. -/
structure PoolFiled (s : PoolState) : Prop where
  positive : ∀ i ∈ s.setKeyPool, 1 ≤ i
  filed : ∀ i ∈ s.setKeyPool, ∃ key, s.pool.lookup i = some key ∧ s.created.lookup i = some key
  known : ∀ i key, s.pool.lookup i = some key → key ∈ s.keys ∧ key.isValid = true
  distinct : ∀ i j key, s.pool.lookup i = some key → s.pool.lookup j = some key → i = j

/-- The keys that are reserved are not in the set. -/
structure KeyPoolApart (s : PoolState) : Prop extends PoolFiled s where
  held : ∀ r k, s.reservekeys.lookup r = some k → 1 ≤ k.nIndex ∧ k.nIndex ∉ s.setKeyPool ∧
    s.pool.lookup k.nIndex = some k.vchPubKey ∧ s.created.lookup k.nIndex = some k.vchPubKey
  once : ∀ r r' k k', s.reservekeys.lookup r = some k → s.reservekeys.lookup r' = some k' →
    k.nIndex = k'.nIndex → r = r'

/-- No reserved index is among those under which the pool is topped up. -/
def TopsUpApart (env : PoolEnv) (s : PoolState) (kpSize : UInt32) : Prop :=
  s.locked = false → ∀ r k, s.reservekeys.lookup r = some k → ¬ (s.lastIndex < k.nIndex ∧
    k.nIndex ≤ s.lastIndex + ((targetSize env kpSize - s.setKeyPool.card : Nat) : Int))

section Apart

variable {env : PoolEnv} {s : PoolState}

theorem le_lastIndex {i : Int} (member : i ∈ s.setKeyPool) : i ≤ s.lastIndex := by
  unfold PoolState.lastIndex
  rw [dif_pos ⟨i, member⟩]
  exact le_max' _ _ member

/-- A new key is filed behind the last index. -/
theorem nEnd_eq : (if filled : s.setKeyPool.Nonempty then s.setKeyPool.max' filled + 1 else 1) =
    s.lastIndex + 1 := by
  unfold PoolState.lastIndex
  split
  · rfl
  · rfl

theorem lastIndex_eq {last : Int} (member : last ∈ s.setKeyPool)
    (greatest : ∀ i ∈ s.setKeyPool, i ≤ last) : s.lastIndex = last := by
  apply le_antisymm _ (le_lastIndex member)
  unfold PoolState.lastIndex
  rw [dif_pos ⟨last, member⟩]
  exact greatest _ (max'_mem _ _)

theorem KeyPoolApart.lastIndex_nonneg (apart : KeyPoolApart s) : 0 ≤ s.lastIndex := by
  unfold PoolState.lastIndex
  split
  · have := apart.positive _ (max'_mem _ (by assumption))
    omega
  · exact le_refl 0

/-- The wallet gets a key that is not filed. -/
theorem KeyPoolApart.learn (apart : KeyPoolApart s) (key : CPubKey) :
    KeyPoolApart { s with keys := key :: s.keys } where
  positive := apart.positive
  filed := apart.filed
  known i key' there := by
    obtain ⟨old, valid⟩ := apart.known i key' there
    exact ⟨List.mem_cons_of_mem _ old, valid⟩
  distinct := apart.distinct
  held := apart.held
  once := apart.once

/-- A record is written of a new key, under an index behind the others that is not reserved. -/
theorem KeyPoolApart.insert (apart : KeyPoolApart s) {nEnd : Int} {key : CPubKey}
    (behind : ∀ i ∈ s.setKeyPool, i < nEnd) (positive : 1 ≤ nEnd)
    (free : ∀ r k, s.reservekeys.lookup r = some k → k.nIndex ≠ nEnd)
    (new : key ∉ s.keys) (valid : key.isValid = true) :
    KeyPoolApart {
      s with
      keys := key :: s.keys
      pool := s.pool.insert nEnd key
      created := s.created.insert nEnd key
      setKeyPool := insert nEnd s.setKeyPool } where
  positive i member := by
    rcases mem_insert.mp member with rfl | old
    · exact positive
    · exact apart.positive i old
  filed i member := by
    rcases mem_insert.mp member with rfl | old
    · exact ⟨key, AList.lookup_insert _, AList.lookup_insert _⟩
    · have other : i ≠ nEnd := (behind i old).ne
      rw [AList.lookup_insert_ne other, AList.lookup_insert_ne other]
      exact apart.filed i old
  known i key' there := by
    rcases of_lookup_insert there with ⟨-, rfl⟩ | filed
    · exact ⟨List.mem_cons_self, valid⟩
    · obtain ⟨old, valid'⟩ := apart.known i key' filed
      exact ⟨List.mem_cons_of_mem _ old, valid'⟩
  distinct i j key' first second := by
    rcases of_lookup_insert first with ⟨same, rfl⟩ | filed
    · rcases of_lookup_insert second with ⟨same', -⟩ | filed'
      · exact same.trans same'.symm
      · exact absurd (apart.known j _ filed').1 new
    · rcases of_lookup_insert second with ⟨-, rfl⟩ | filed'
      · exact absurd (apart.known i _ filed).1 new
      · exact apart.distinct i j key' filed filed'
  held r k reserved := by
    obtain ⟨positive, outside, record, history⟩ := apart.held r k reserved
    have other := free r k reserved
    rw [AList.lookup_insert_ne other, AList.lookup_insert_ne other]
    refine ⟨positive, fun member => ?_, record, history⟩
    rcases mem_insert.mp member with same | old
    · exact other same
    · exact outside old
  once := apart.once

theorem addPoolKey_grows (added : (addPoolKey env s).1 = .ok ()) :
    (addPoolKey env s).2.lastIndex = s.lastIndex + 1 ∧
      (addPoolKey env s).2.setKeyPool.card = s.setKeyPool.card + 1 := by
  unfold addPoolKey at added ⊢
  cases generated : env.generateNewKey s.keys with
  | none =>
    rw [generated] at added
    cases added
  | some key =>
    rw [generated] at added
    dsimp only at added ⊢
    rw [nEnd_eq] at added ⊢
    split at added
    · rename_i written
      rw [if_pos written]
      constructor
      · refine lastIndex_eq (mem_insert_self _ _) fun i member => ?_
        rcases mem_insert.mp member with rfl | old
        · exact le_refl _
        · exact (Int.lt_add_one_of_le (le_lastIndex old)).le
      · refine card_insert_of_notMem fun member => ?_
        have := le_lastIndex member
        omega
    · cases added

/-- Adding keys changes neither the lock nor what is reserved, which stays apart. -/
structure AddsKeys (s s' : PoolState) : Prop where
  locked : s'.locked = s.locked
  reservekeys : s'.reservekeys = s.reservekeys
  apart : KeyPoolApart s'

/-- A key is added under an index that is not reserved. -/
theorem addPoolKey_apart (apart : KeyPoolApart s)
    (free : ∀ r k, s.reservekeys.lookup r = some k → k.nIndex ≠ s.lastIndex + 1) :
    AddsKeys s (addPoolKey env s).2 ∧ (addPoolKey env s).1 ≠ .error .readFailed := by
  unfold addPoolKey
  cases generated : env.generateNewKey s.keys with
  | none => exact ⟨⟨rfl, rfl, apart⟩, by simp⟩
  | some key =>
    obtain ⟨new, valid⟩ := env.generates _ _ generated
    dsimp only
    rw [nEnd_eq]
    have behind : ∀ i ∈ s.setKeyPool, i < s.lastIndex + 1 := fun i member =>
      Int.lt_add_one_of_le (le_lastIndex member)
    have positive : 1 ≤ s.lastIndex + 1 := by
      have := apart.lastIndex_nonneg
      omega
    split
    · exact ⟨⟨rfl, rfl, apart.insert behind positive free new valid⟩, by simp⟩
    · exact ⟨⟨rfl, rfl, apart.learn key⟩, by simp⟩

theorem topUpLoop_apart {target fuel : Nat} (apart : KeyPoolApart s)
    (free : ∀ r k, s.reservekeys.lookup r = some k → ¬ (s.lastIndex < k.nIndex ∧
      k.nIndex ≤ s.lastIndex + ((target - s.setKeyPool.card : Nat) : Int))) :
    AddsKeys s (topUpLoop env target fuel s).2 ∧
      (topUpLoop env target fuel s).1 ≠ .error .readFailed := by
  induction fuel generalizing s with
  | zero => exact ⟨⟨rfl, rfl, apart⟩, by simp [topUpLoop]⟩
  | succ fuel ih =>
    rw [topUpLoop]
    split
    · rename_i less
      have next : ∀ r k, s.reservekeys.lookup r = some k → k.nIndex ≠ s.lastIndex + 1 := by
        intro r k reserved same
        exact free r k reserved (by omega)
      obtain ⟨adds, early⟩ := @addPoolKey_apart env s apart next
      have grows := @addPoolKey_grows env s
      split
      · rename_i e s' failed
        rw [failed] at adds early
        exact ⟨adds, fun same => early (congrArg Except.error (Except.error.inj same))⟩
      rename_i s' added
      rw [added] at adds grows
      obtain ⟨last, card⟩ := grows rfl
      have free' : ∀ r k, s'.reservekeys.lookup r = some k → ¬ (s'.lastIndex < k.nIndex ∧
          k.nIndex ≤ s'.lastIndex + ((target - s'.setKeyPool.card : Nat) : Int)) := by
        intro r k reserved
        rw [adds.reservekeys] at reserved
        have := free r k reserved
        rw [last, card]
        omega
      obtain ⟨⟨locked, reservekeys, apart'⟩, early'⟩ := ih adds.apart free'
      exact ⟨⟨locked.trans adds.locked, reservekeys.trans adds.reservekeys, apart'⟩, early'⟩
    · exact ⟨⟨rfl, rfl, apart⟩, by simp⟩

theorem topUpKeyPool_apart {kpSize : UInt32} (apart : KeyPoolApart s)
    (free : TopsUpApart env s kpSize) :
    AddsKeys s (topUpKeyPool env kpSize s).2 ∧
      (topUpKeyPool env kpSize s).1 ≠ .error .readFailed := by
  unfold topUpKeyPool
  split
  · exact ⟨⟨rfl, rfl, apart⟩, by simp⟩
  rename_i unlocked
  obtain ⟨adds, early⟩ := @topUpLoop_apart env s _ (targetSize env kpSize) apart
    (free (Bool.eq_false_iff.mpr unlocked))
  split
  · rename_i e s' failed
    rw [failed] at adds early
    exact ⟨adds, fun same => early (congrArg Except.error (Except.error.inj same))⟩
  · rename_i s' done
    rw [done] at adds
    exact ⟨adds, by simp⟩

/-- What `ReserveKeyFromKeyPool` does behind the top up: nothing, or it takes an index of the set
with its record. -/
inductive Reserves (s : PoolState) : Int × Except PoolError CPubKey × PoolState → Prop
  | threw {e : PoolError} (early : e ≠ .readFailed) : Reserves s (-1, .error e, s)
  | empty : Reserves s (-1, .ok .invalid, s)
  | taken {nIndex : Int} {key : CPubKey} (member : nIndex ∈ s.setKeyPool)
    (record : s.pool.lookup nIndex = some key) (history : s.created.lookup nIndex = some key)
    (valid : key.isValid = true) :
    Reserves s (nIndex, .ok key, { s with setKeyPool := s.setKeyPool.erase nIndex })

theorem takeOldest_reserves (filed : PoolFiled s) : Reserves s (takeOldest s) := by
  unfold takeOldest
  split
  · rename_i filled
    have member := min'_mem _ filled
    obtain ⟨key, record, history⟩ := filed.filed _ member
    obtain ⟨known, valid⟩ := filed.known _ key record
    simp only [record, known, valid, not_true_eq_false, Bool.not_true, Bool.false_eq_true, if_false]
    exact .taken member record history valid
  · exact .empty

section

variable (apart : KeyPoolApart s)
include apart

theorem reserveKeyFromKeyPool_reserves (free : TopsUpApart env s 0) :
    ∃ s', AddsKeys s s' ∧ Reserves s' (reserveKeyFromKeyPool env s) := by
  unfold reserveKeyFromKeyPool
  split
  · exact ⟨s, ⟨rfl, rfl, apart⟩, takeOldest_reserves apart.toPoolFiled⟩
  obtain ⟨adds, early⟩ := @topUpKeyPool_apart env s 0 apart free
  split
  · rename_i e s' failed
    rw [failed] at adds early
    exact ⟨s', adds, .threw fun same => early (congrArg Except.error same)⟩
  · rename_i b s' done
    rw [done] at adds
    exact ⟨s', adds, takeOldest_reserves adds.apart.toPoolFiled⟩

theorem KeyPoolApart.takeOut (nIndex : Int) :
    KeyPoolApart { s with setKeyPool := s.setKeyPool.erase nIndex } where
  positive i member := apart.positive i (mem_of_mem_erase member)
  filed i member := apart.filed i (mem_of_mem_erase member)
  known := apart.known
  distinct := apart.distinct
  held r k reserved := by
    obtain ⟨positive, outside, rest⟩ := apart.held r k reserved
    exact ⟨positive, fun member => outside (mem_of_mem_erase member), rest⟩
  once := apart.once

/-- The record is erased of an index that is neither in the set nor reserved. -/
theorem KeyPoolApart.keepIndex {nIndex : Int} (outside : nIndex ∉ s.setKeyPool)
    (free : ∀ r k, s.reservekeys.lookup r = some k → k.nIndex ≠ nIndex) :
    KeyPoolApart (keepIndex env nIndex s) := by
  unfold Esbcoin.keepIndex
  split
  · have kept : ∀ i key, (s.pool.erase nIndex).lookup i = some key → s.pool.lookup i = some key := by
      intro i key there
      by_cases same : i = nIndex
      · rw [same, AList.lookup_erase] at there
        cases there
      · rwa [AList.lookup_erase_ne same] at there
    exact {
      positive := apart.positive
      filed := by
        intro i member
        have other : i ≠ nIndex := fun same => outside (same ▸ member)
        rw [AList.lookup_erase_ne other]
        exact apart.filed i member
      known := fun i key there => apart.known i key (kept i key there)
      distinct := fun i j key first second =>
        apart.distinct i j key (kept i key first) (kept j key second)
      held := by
        intro r k reserved
        rw [AList.lookup_erase_ne (free r k reserved)]
        exact apart.held r k reserved
      once := apart.once }
  · exact apart

/-- A reservation that is given up. -/
theorem KeyPoolApart.release {r : Nat} {k : CReserveKey}
    (reserved : s.reservekeys.lookup r = some k) :
    KeyPoolApart { s with reservekeys := s.reservekeys.erase r } ∧
      ∀ r' k', (s.reservekeys.erase r).lookup r' = some k' → k'.nIndex ≠ k.nIndex := by
  have kept : ∀ r' k', (s.reservekeys.erase r).lookup r' = some k' →
      r' ≠ r ∧ s.reservekeys.lookup r' = some k' := by
    intro r' k' there
    by_cases same : r' = r
    · rw [same, AList.lookup_erase] at there
      cases there
    · rw [AList.lookup_erase_ne same] at there
      exact ⟨same, there⟩
  refine ⟨{ apart with held := ?_, once := ?_ }, ?_⟩
  · intro r' k' there
    exact apart.held r' k' (kept r' k' there).2
  · intro r₁ r₂ k₁ k₂ first second
    exact apart.once r₁ r₂ k₁ k₂ (kept r₁ k₁ first).2 (kept r₂ k₂ second).2
  · intro r' k' there same
    obtain ⟨other, still⟩ := kept r' k' there
    exact other (apart.once r' r k' k still reserved same)

theorem KeyPoolApart.reserve {r : Nat} {k : CReserveKey} (positive : 1 ≤ k.nIndex)
    (outside : k.nIndex ∉ s.setKeyPool) (record : s.pool.lookup k.nIndex = some k.vchPubKey)
    (history : s.created.lookup k.nIndex = some k.vchPubKey)
    (free : ∀ r k', s.reservekeys.lookup r = some k' → k'.nIndex ≠ k.nIndex) :
    KeyPoolApart { s with reservekeys := s.reservekeys.insert r k } := by
  refine { apart with held := ?_, once := ?_ }
  · intro r' k' there
    rcases of_lookup_insert there with ⟨-, rfl⟩ | old
    · exact ⟨positive, outside, record, history⟩
    · exact apart.held r' k' old
  intro r₁ r₂ k₁ k₂ first second same
  rcases of_lookup_insert first with ⟨here, rfl⟩ | old
  · rcases of_lookup_insert second with ⟨here', -⟩ | old'
    · exact here.trans here'.symm
    · exact absurd same.symm (free r₂ k₂ old')
  · rcases of_lookup_insert second with ⟨-, rfl⟩ | old'
    · exact absurd same (free r₁ k₁ old)
    · exact apart.once r₁ r₂ k₁ k₂ old old' same

/-- An index that was taken out of the set is not reserved. -/
theorem KeyPoolApart.free_of_mem {nIndex : Int} (member : nIndex ∈ s.setKeyPool) :
    ∀ r k, s.reservekeys.lookup r = some k → k.nIndex ≠ nIndex := by
  intro r k reserved same
  exact (apart.held r k reserved).2.1 (same ▸ member)

theorem keepKey_apart (r : Nat) : KeyPoolApart (keepKey env r s) := by
  unfold keepKey
  split
  · rename_i k reserved
    obtain ⟨released, free⟩ := apart.release reserved
    have kept := @KeyPoolApart.keepIndex env _ released k.nIndex (apart.held r k reserved).2.1 free
    unfold keepIndex at kept ⊢
    split
    · rename_i backed
      rw [if_pos backed] at kept
      exact kept
    · rename_i backed
      rw [if_neg backed] at kept
      exact kept
  · exact apart

theorem returnKey_apart (r : Nat) : KeyPoolApart (returnKey r s) := by
  unfold returnKey
  split
  · rename_i k reserved
    obtain ⟨positive, -, record, history⟩ := apart.held r k reserved
    obtain ⟨released, free⟩ := apart.release reserved
    exact { released with
      positive := by
        intro i member
        rcases mem_insert.mp member with rfl | old
        · exact positive
        · exact apart.positive i old
      filed := by
        intro i member
        rcases mem_insert.mp member with rfl | old
        · exact ⟨k.vchPubKey, record, history⟩
        · exact apart.filed i old
      held := by
        intro r' k' there
        obtain ⟨positive', outside, rest⟩ := released.held r' k' there
        refine ⟨positive', fun member => ?_, rest⟩
        rcases mem_insert.mp member with same | old
        · exact free r' k' there same
        · exact outside old }
  · exact apart

end

end Apart

section Runs

variable {env : PoolEnv} {s : PoolState}

theorem eq_of_thrown {α : Type} {result : Except PoolError α} {e : PoolError}
    (failed : thrown result = some e) : result = .error e := by
  cases result with
  | ok a => cases failed
  | error e' => exact congrArg Except.error (Option.some.inj failed)

/-- `GetKeyFromPool` keeps what it reserves. -/
theorem getKeyFromPool_apart (apart : KeyPoolApart s) (free : TopsUpApart env s 0) :
    KeyPoolApart (getKeyFromPool env s).2 ∧ thrown (getKeyFromPool env s).1 ≠ some .readFailed := by
  obtain ⟨s', adds, reserves⟩ := reserveKeyFromKeyPool_reserves apart free
  unfold getKeyFromPool
  generalize reserveKeyFromKeyPool env s = result at reserves ⊢
  cases reserves with
  | threw early => exact ⟨adds.apart, fun same => early (Option.some.inj same)⟩
  | empty =>
    dsimp only
    rw [if_pos rfl]
    split
    · exact ⟨adds.apart, by simp [thrown]⟩
    · split
      · exact ⟨adds.apart, by simp [thrown]⟩
      · exact ⟨adds.apart.learn _, by simp [thrown]⟩
  | taken member record history valid =>
    have positive := adds.apart.positive _ member
    dsimp only
    rw [if_neg (by omega)]
    refine ⟨(adds.apart.takeOut _).keepIndex (notMem_erase _ _) ?_, by simp [thrown]⟩
    exact adds.apart.free_of_mem member

theorem getReservedKey_apart (apart : KeyPoolApart s) {r : Nat}
    (free : s.reservekeys.lookup r = none → TopsUpApart env s 0) :
    KeyPoolApart (getReservedKey env r s).2 ∧
      thrown (getReservedKey env r s).1 ≠ some .readFailed := by
  unfold getReservedKey
  split
  · refine ⟨apart, ?_⟩
    split
    · simp [thrown]
    · simp [thrown]
  rename_i vacant
  obtain ⟨s', adds, reserves⟩ := reserveKeyFromKeyPool_reserves apart (free vacant)
  generalize reserveKeyFromKeyPool env s = result at reserves ⊢
  cases reserves with
  | threw early => exact ⟨adds.apart, fun same => early (Option.some.inj same)⟩
  | empty => exact ⟨adds.apart, by simp [thrown]⟩
  | taken member record history valid =>
    have positive := adds.apart.positive _ member
    dsimp only
    rw [if_neg (by omega), if_pos valid]
    refine ⟨(adds.apart.takeOut _).reserve positive (notMem_erase _ _) record history ?_,
      by simp [thrown]⟩
    exact adds.apart.free_of_mem member

/-- Every action that creates no key under a reserved index keeps what is reserved apart, and reads
every record that it asks for. -/
theorem poolStep_apart {a : PoolAction} (apart : KeyPoolApart s) (creates : CreatesApart env s a) :
    KeyPoolApart (poolStep env s a) ∧ poolError env s a ≠ some .readFailed := by
  have free : ∀ {kpSize}, (s.locked = false → toppedTo env s a = targetSize env kpSize) →
      TopsUpApart env s kpSize := by
    intro kpSize target unlocked r k reserved
    rw [← target unlocked]
    exact creates ⟨r, k⟩ (AList.mem_lookup_iff.mp reserved)
  cases a with
  | topUp kpSize =>
    obtain ⟨adds, early⟩ := @topUpKeyPool_apart env s kpSize apart
      (free fun unlocked => by rw [toppedTo, unlocked]; rfl)
    exact ⟨adds.apart, fun failed => early (eq_of_thrown failed)⟩
  | reserve r =>
    exact getReservedKey_apart apart fun vacant => free fun unlocked => by
      rw [toppedTo, unlocked, contains, vacant]
      rfl
  | keep r => exact ⟨keepKey_apart apart r, by simp [poolError]⟩
  | give r => exact ⟨returnKey_apart apart r, by simp [poolError]⟩
  | getKey =>
    exact getKeyFromPool_apart apart (free fun unlocked => by rw [toppedTo, unlocked]; rfl)
  | lock => exact ⟨{ apart with }, by simp [poolError]⟩
  | unlock => exact ⟨{ apart with }, by simp [poolError]⟩

/-- Two reservations have different indices and keys, and every index of the set has the record of
the key that it was created with. -/
structure PoolSound (s : PoolState) : Prop where
  apart : ∀ r r' k k', s.reservekeys.lookup r = some k → s.reservekeys.lookup r' = some k' →
    r ≠ r' → k.nIndex ≠ k'.nIndex ∧ k.vchPubKey ≠ k'.vchPubKey
  filed : ∀ i ∈ s.setKeyPool, ∃ key, s.pool.lookup i = some key ∧ s.created.lookup i = some key

theorem KeyPoolApart.sound (apart : KeyPoolApart s) : PoolSound s where
  apart r r' k k' first second other := by
    have indices : k.nIndex ≠ k'.nIndex := fun same =>
      other (apart.once r r' k k' first second same)
    refine ⟨indices, fun same => indices ?_⟩
    apply apart.distinct _ _ k.vchPubKey (apart.held r k first).2.2.1
    rw [same]
    exact (apart.held r' k' second).2.2.1
  filed := apart.filed

open StepRun

/-- From a pool that is filed, with nothing reserved, every run that creates no key under a reserved
index is sound, and reads every record that it asks for. -/
theorem keyPool_sound (env : PoolEnv) (s : PoolState) (actions : List PoolAction)
    (filed : PoolFiled s) (unreserved : s.reservekeys = ∅)
    (creates : AllSteps (poolStep env) (CreatesApart env) s actions) :
    PoolSound (run (poolStep env) s actions) ∧
      AllSteps (poolStep env) (fun s a => poolError env s a ≠ some .readFailed) s actions := by
  have apart : KeyPoolApart s := by
    refine ⟨filed, ?_, ?_⟩
    · intro r k reserved
      rw [unreserved] at reserved
      cases reserved
    · intro r r' k k' reserved
      rw [unreserved] at reserved
      cases reserved
  have steps : ∀ s a, KeyPoolApart s → CreatesApart env s a → KeyPoolApart (poolStep env s a) :=
    fun s a apart creates => (poolStep_apart apart creates).1
  exact ⟨(creates.invariant steps apart).sound,
    creates.of_invariant steps (fun s a apart creates => (poolStep_apart apart creates).2) apart⟩

end Runs

def endingKey (byte : UInt8) : CPubKey := .ending byte

/-- A wallet that generates the first of a few keys that it does not have. -/
def fewKeys (keypoolArg : Int) : PoolEnv where
  keypoolArg
  fFileBacked := true
  generateNewKey keys := ([1, 2, 3, 4].map endingKey).find? fun key => key ∉ keys
  generates keys key found := by
    obtain ⟨byte, -, rfl⟩ := List.mem_map.mp (List.mem_of_find?_eq_some found)
    have new := List.find?_some found
    exact ⟨of_decide_eq_true new, rfl⟩
  writePool _ _ := true

/-- With `-keypool=0` the index 1 is reserved twice; kept for one and returned for the other, it has
no record. -/
theorem reserved_index_reissued :
    (((StepRun.run (poolStep (fewKeys 0)) {} [.reserve 0, .reserve 1]).reservekeys.lookup 0).map
      CReserveKey.nIndex = some 1 ∧
    ((StepRun.run (poolStep (fewKeys 0)) {} [.reserve 0, .reserve 1]).reservekeys.lookup 1).map
      CReserveKey.nIndex = some 1) ∧
    poolError (fewKeys 0)
      (StepRun.run (poolStep (fewKeys 0)) {} [.reserve 0, .reserve 1, .keep 0, .give 1])
      (.reserve 2) = some .readFailed := by
  decide

/-- Two keys are reserved, and one of them comes back. -/
theorem keyPool_sound_three :
    PoolSound (StepRun.run (poolStep (fewKeys 2)) {} [.reserve 0, .reserve 1, .give 0, .lock]) ∧
      StepRun.AllSteps (poolStep (fewKeys 2))
        (fun s a => poolError (fewKeys 2) s a ≠ some .readFailed) {}
        [.reserve 0, .reserve 1, .give 0, .lock] :=
  keyPool_sound _ _ _ ⟨by simp, by simp, by simp, by simp⟩ rfl (by decide)

end Esbcoin
