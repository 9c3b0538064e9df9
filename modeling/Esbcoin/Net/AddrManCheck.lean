import Esbcoin.Lib.CrossIndex
import Esbcoin.Lib.OrderedMap
import Esbcoin.Net.AddrMan
import Mathlib.Data.Finset.Card
import Mathlib.Data.List.ProdSigma
import Mathlib.Data.Set.Insert

/-!
# The consistency check of the address manager

`CAddrMan::Check_` (`src/addrman.cpp:373-449`), and what it checks as a statement: `Consistent`.
`Tracked` is the same with a slack for the moments inside an operation, when entries wait for their
place and the counters run ahead or behind.
-/

namespace Esbcoin

open SlotTable CrossIndex AssocMap List

/-- `CAddrInfo()` (`addrman.h:76-79`). -/
def CAddrInfo.blank : CAddrInfo := CAddrInfo.init CAddress.init (Vector.replicate 16 0)

namespace CAddrMan

/-- What `Check_` gathers on its way. -/
structure Seen where
  setTried : Finset Nat
  mapNew : AssocMap Nat Int

/-- Where an entry is counted (`addrman.cpp:385-397`). -/
def classify (seen : Seen) (n : Nat) (info : CAddrInfo) : Except Int Seen :=
  if info.fInTried then
    if info.nLastSuccess = 0 then .error (-1)
    else if info.nRefCount ≠ 0 then .error (-2)
    else .ok { seen with setTried := insert n seen.setTried }
  else if info.nRefCount < 0 ∨ info.nRefCount > ADDRMAN_NEW_BUCKETS_PER_ADDRESS then .error (-3)
  else if info.nRefCount = 0 then .error (-4)
  else .ok { seen with mapNew := seen.mapNew.insert n info.nRefCount }

/-- The indexes and the times of an entry (`addrman.cpp:398-405`). -/
def checkLinks (s : CAddrMan) (n : Nat) (info : CAddrInfo) : Except Int Unit :=
  if (s.mapAddr.lookup info.service.ip).getD 0 ≠ n then .error (-5)
  else if info.nRandomPos < 0 ∨ info.nRandomPos ≥ s.vRandom.length ∨
      s.vRandom[info.nRandomPos.toNat]? ≠ some n then .error (-14)
  else if info.nLastTry < 0 then .error (-6)
  else if info.nLastSuccess < 0 then .error (-8)
  else .ok ()

/-- The loop of `Check_` over `mapInfo` (`addrman.cpp:382-406`). -/
def checkInfos (s : CAddrMan) : List (Sigma fun _ : Nat => CAddrInfo) → Seen → Except Int Seen
  | [], seen => .ok seen
  | e :: entries, seen =>
    match classify seen e.1 e.2 with
    | .error code => .error code
    | .ok seen =>
      match s.checkLinks e.1 e.2 with
      | .error code => .error code
      | .ok () => checkInfos s entries seen

variable (hashLow64 : List UInt8 → UInt64)

/-- The loop of `Check_` over the "tried" table (`addrman.cpp:413-425`). -/
def checkTriedTable (s : CAddrMan) : List TriedSlot → Finset Nat → Except Int (Finset Nat)
  | [], setTried => .ok setTried
  | slot :: slots, setTried =>
    match s.vvTried slot with
    | none => checkTriedTable s slots setTried
    | some nId =>
      if nId ∉ setTried then .error (-11)
      else
        let info := (s.mapInfo.lookup nId).getD .blank
        if info.getTriedBucket hashLow64 s.nKey ≠ slot.1 then .error (-17)
        else if info.getBucketPosition hashLow64 s.nKey false slot.1 ≠ slot.2 then .error (-18)
        else checkTriedTable s slots (setTried.erase nId)

/-- The loop of `Check_` over the "new" table (`addrman.cpp:427-438`). -/
def checkNewTable (s : CAddrMan) : List NewSlot → AssocMap Nat Int → Except Int (AssocMap Nat Int)
  | [], mapNew => .ok mapNew
  | slot :: slots, mapNew =>
    match s.vvNew slot with
    | none => checkNewTable s slots mapNew
    | some nId =>
      match mapNew.lookup nId with
      | none => .error (-12)
      | some left =>
        let info := (s.mapInfo.lookup nId).getD .blank
        if info.getBucketPosition hashLow64 s.nKey true slot.1 ≠ slot.2 then .error (-19)
        else if left - 1 = 0 then checkNewTable s slots (mapNew.erase nId)
        else checkNewTable s slots (mapNew.insert nId (left - 1))

/-- The end of `Check_` behind the loops over the tables (`addrman.cpp:440-447`). -/
def checkRest (s : CAddrMan) (setTried : Finset Nat) (mapNew : AssocMap Nat Int) : Int :=
  if setTried.card ≠ 0 then -13
  else if mapNew.size ≠ 0 then -15
  else if s.nKey = 0 then -16
  else 0

/-- `CAddrMan::Check_` (`addrman.cpp:374-448`). -/
def check (s : CAddrMan) : Int :=
  if (s.vRandom.length : Int) ≠ s.nTried + s.nNew then -7
  else
    match s.checkInfos s.mapInfo.inOrder ⟨∅, ∅⟩ with
    | .error code => code
    | .ok seen =>
      if (seen.setTried.card : Int) ≠ s.nTried then -9
      else if (seen.mapNew.size : Int) ≠ s.nNew then -10
      else
        match s.checkTriedTable hashLow64 triedSlots seen.setTried with
        | .error code => code
        | .ok setTried =>
          match s.checkNewTable hashLow64 newSlots seen.mapNew with
          | .error code => code
          | .ok mapNew => s.checkRest setTried mapNew

/-! ## What it checks -/

/-- The address manager is consistent: what `Check_` is there to check. -/
structure Consistent (s : CAddrMan) : Prop where
  inverse : ∀ nId addr, (∃ info, s.mapInfo.lookup nId = some info ∧ info.service.ip = addr) ↔
    s.mapAddr.lookup addr = some nId
  shuffled : s.vRandom.Perm s.mapInfo.keys
  position : ∀ nId info, s.mapInfo.lookup nId = some info →
    0 ≤ info.nRandomPos ∧ s.vRandom[info.nRandomPos.toNat]? = some nId
  new : ∀ nId info, s.mapInfo.lookup nId = some info → info.fInTried = false →
    info.nRefCount = held newSlots s.vvNew nId ∧
      1 ≤ info.nRefCount ∧ info.nRefCount ≤ ADDRMAN_NEW_BUCKETS_PER_ADDRESS
  tried : ∀ nId info, s.mapInfo.lookup nId = some info → info.fInTried = true →
    (∀ slot, s.vvNew slot ≠ some nId) ∧
      ∀ slot, s.vvTried slot = some nId ↔ slot = info.triedSlot hashLow64 s.nKey
  nNew : s.nNew = s.mapInfo.count fun info => !info.fInTried
  nTried : s.nTried = s.mapInfo.count fun info => info.fInTried

/-- An entry stands where it should, or waits for a place. -/
structure InPlace (pending : Set Nat) (s : CAddrMan) (nId : Nat) (info : CAddrInfo) : Prop where
  refs : info.nRefCount = held newSlots s.vvNew nId
  few : held newSlots s.vvNew nId ≤ ADDRMAN_NEW_BUCKETS_PER_ADDRESS
  new : info.fInTried = false → nId ∉ pending → 1 ≤ held newSlots s.vvNew nId
  tried : info.fInTried = true → held newSlots s.vvNew nId = 0 ∧
    s.vvTried (info.triedSlot hashLow64 s.nKey) = some nId ∧ info.nLastSuccess ≠ 0
  times : 0 ≤ info.nLastTry ∧ 0 ≤ info.nLastSuccess

/-- The address of an entry. -/
def addrOf (s : CAddrMan) (nId : Nat) : Option CNetAddr :=
  (s.mapInfo.lookup nId).map fun info => info.service.ip

/-- The place of an entry in the random order. -/
def placeOf (s : CAddrMan) (nId : Nat) : Option Int :=
  (s.mapInfo.lookup nId).map fun info => info.nRandomPos

/-- The numbers are used once, and the indexes lead to the entries and back. -/
structure Indexed (s : CAddrMan) : Prop where
  fresh : ∀ nId info, s.mapInfo.lookup nId = some info → nId < s.nIdCount
  inverse : Inverse s.addrOf s.mapAddr.lookup
  placed : Placed s.placeOf s.vRandom

/-- What holds between the steps of an operation: the `pending` entries wait for a place in the
"new" table, and the counters are so far ahead of the numbers they count. -/
structure Tracked (pending : Set Nat) (newAhead triedAhead : Int) (s : CAddrMan) : Prop
    extends Indexed s where
  newSlot : ∀ slot nId, s.vvNew slot = some nId → ∃ info, s.mapInfo.lookup nId = some info ∧
    slot = info.newSlotIn hashLow64 s.nKey slot.1
  triedSlot : ∀ slot nId, s.vvTried slot = some nId → ∃ info, s.mapInfo.lookup nId = some info ∧
    info.fInTried = true ∧ slot = info.triedSlot hashLow64 s.nKey
  inPlace : ∀ nId info, s.mapInfo.lookup nId = some info → InPlace hashLow64 pending s nId info
  nNew : s.nNew = (s.mapInfo.count fun info => !info.fInTried) + newAhead
  nTried : s.nTried = (s.mapInfo.count fun info => info.fInTried) + triedAhead

theorem nodup_newSlots : newSlots.Nodup := (nodup_finRange _).product (nodup_finRange _)

theorem mem_newSlots (slot : NewSlot) : slot ∈ newSlots :=
  pair_mem_product.mpr ⟨mem_finRange _, mem_finRange _⟩

theorem length_newSlots : newSlots.length = 65536 := by
  rw [newSlots, length_product, length_finRange, length_finRange]
  rfl

theorem length_triedSlots : triedSlots.length = 16384 := by
  rw [triedSlots, length_product, length_finRange, length_finRange]
  rfl

theorem nodup_triedSlots : triedSlots.Nodup :=
  (nodup_finRange _).product (nodup_finRange _)

theorem mem_triedSlots (slot : TriedSlot) : slot ∈ triedSlots :=
  pair_mem_product.mpr ⟨mem_finRange _, mem_finRange _⟩

namespace Tracked

variable {hashLow64} {pending : Set Nat} {newAhead triedAhead : Int} {s : CAddrMan} {nId : Nat}
  {info : CAddrInfo}

/-- An entry that no slot holds. -/
theorem held_eq_zero_iff : held newSlots s.vvNew nId = 0 ↔ ∀ slot, s.vvNew slot ≠ some nId := by
  rw [SlotTable.held_eq_zero_iff]
  exact ⟨fun none slot => none slot (mem_newSlots slot), fun none slot _ => none slot⟩

section

variable (tracked : Tracked hashLow64 pending newAhead triedAhead s)
include tracked

/-- The vector holds the numbers of the entries. -/
theorem vRandom_perm :
    s.vRandom.Perm s.mapInfo.keys := by
  rw [perm_ext_iff_of_nodup tracked.placed.nodup s.mapInfo.keys_nodup]
  intro nId
  rw [tracked.placed.mem_iff, ← AList.mem_keys, ← AList.lookup_isSome, Option.isSome_iff_exists]
  constructor
  · rintro ⟨p, found⟩
    obtain ⟨info, there, -⟩ := Option.map_eq_some_iff.mp found
    exact ⟨info, there⟩
  · rintro ⟨info, there⟩
    exact ⟨info.nRandomPos, by rw [placeOf, there]; rfl⟩

theorem length_vRandom :
    s.vRandom.length = s.mapInfo.size := by
  rw [tracked.vRandom_perm.length_eq, AssocMap.size, AList.keys, List.keys, length_map]

theorem position (found : s.mapInfo.lookup nId = some info) :
    ∃ i : Nat, info.nRandomPos = i ∧ s.vRandom[i]? = some nId :=
  (tracked.placed nId info.nRandomPos).mp (by rw [placeOf, found]; rfl)

theorem find_iff {addr : CNetAddr} :
    s.find addr = some (nId, info) ↔ s.mapInfo.lookup nId = some info ∧ info.service.ip = addr := by
  unfold find
  constructor
  · intro found
    cases there : s.mapAddr.lookup addr with
    | none => simp [there] at found
    | some other =>
      simp only [there] at found
      obtain ⟨_, behind, same⟩ := Option.map_eq_some_iff.mp found
      obtain ⟨rfl, rfl⟩ := Prod.mk.inj same
      have back := (tracked.inverse other addr).mpr there
      rw [addrOf, behind] at back
      exact ⟨behind, Option.some.inj back⟩
  · rintro ⟨behind, rfl⟩
    have there := (tracked.inverse nId info.service.ip).mp (by rw [addrOf, behind]; rfl)
    simp [there, behind]

/-- An address that is not found has no entry. -/
theorem absent_of_find {addr : CNetAddr} (nothing : s.find addr = none) :
    s.mapAddr.lookup addr = none := by
  cases there : s.mapAddr.lookup addr with
  | none => rfl
  | some nId =>
    obtain ⟨info, behind, same⟩ := Option.map_eq_some_iff.mp ((tracked.inverse nId addr).mpr there)
    rw [tracked.find_iff.mpr ⟨behind, same⟩] at nothing
    cases nothing

end

/-- Between the operations nothing waits and the counters are exact. -/
theorem consistent (tracked : Tracked hashLow64 ∅ 0 0 s) : Consistent hashLow64 s where
  inverse nId addr := by
    rw [← tracked.inverse nId addr, addrOf, Option.map_eq_some_iff]
  shuffled := tracked.vRandom_perm
  position nId info found := by
    obtain ⟨i, place, here⟩ := tracked.position found
    rw [place]
    exact ⟨Int.natCast_nonneg i, here⟩
  new nId info found isNew := by
    have place := tracked.inPlace nId info found
    have some_slot := place.new isNew (Set.notMem_empty nId)
    have few := place.few
    rw [place.refs]
    exact ⟨rfl, by exact_mod_cast some_slot, by exact_mod_cast few⟩
  tried nId info found isTried := by
    obtain ⟨none, here, -⟩ := (tracked.inPlace nId info found).tried isTried
    refine ⟨held_eq_zero_iff.mp none, fun slot => ⟨fun there => ?_, fun own => own ▸ here⟩⟩
    obtain ⟨info', found', -, own⟩ := tracked.triedSlot slot nId there
    rw [found] at found'
    rw [own, Option.some.inj found']
  nNew := by rw [tracked.nNew, Int.add_zero]
  nTried := by rw [tracked.nTried, Int.add_zero]

end Tracked

/-! ## The check passes -/

/-- What an entry adds to what `Check_` has seen. -/
def Seen.add (seen : Seen) (n : Nat) (info : CAddrInfo) : Seen :=
  if info.fInTried then { seen with setTried := insert n seen.setTried }
  else { seen with mapNew := seen.mapNew.insert n info.nRefCount }

theorem Seen.mem_add {seen : Seen} {n nId : Nat} {info : CAddrInfo} :
    nId ∈ (seen.add n info).setTried ↔ nId ∈ seen.setTried ∨ nId = n ∧ info.fInTried = true := by
  unfold Seen.add
  cases info.fInTried with
  | true => simp [or_comm]
  | false => simp

theorem Seen.lookup_add {seen : Seen} {n nId : Nat} {info : CAddrInfo} {left : Int}
    (absent : seen.mapNew.lookup n = none) :
    (seen.add n info).mapNew.lookup nId = some left ↔ seen.mapNew.lookup nId = some left ∨
      nId = n ∧ info.fInTried = false ∧ left = info.nRefCount := by
  unfold Seen.add
  cases info.fInTried with
  | true => simp
  | false =>
    by_cases same : nId = n
    · subst same
      simp [absent, eq_comm]
    · simp [same]

theorem Seen.size_add {seen : Seen} {n : Nat} {info : CAddrInfo} (new : n ∉ seen.setTried)
    (absent : seen.mapNew.lookup n = none) :
    (seen.add n info).setTried.card = seen.setTried.card + (if info.fInTried then 1 else 0) ∧
      (seen.add n info).mapNew.size = seen.mapNew.size + if !info.fInTried then 1 else 0 := by
  unfold Seen.add
  cases info.fInTried with
  | true => simp [new]
  | false => simp [size_insert, erase_of_absent absent]

/-- An entry with a number is the first one or a later one. -/
theorem exists_entry_cons {n nId : Nat} {info : CAddrInfo}
    {entries : List (Sigma fun _ : Nat => CAddrInfo)} {P : CAddrInfo → Prop} :
    (∃ info', ⟨nId, info'⟩ ∈ (⟨n, info⟩ :: entries : List (Sigma fun _ : Nat => CAddrInfo)) ∧
      P info') ↔ nId = n ∧ P info ∨ ∃ info', ⟨nId, info'⟩ ∈ entries ∧ P info' := by
  constructor
  · rintro ⟨info', member, holds⟩
    rcases mem_cons.mp member with same | later
    · cases same
      exact Or.inl ⟨rfl, holds⟩
    · exact Or.inr ⟨info', later, holds⟩
  · rintro (⟨rfl, holds⟩ | ⟨info', later, holds⟩)
    · exact ⟨info, mem_cons_self, holds⟩
    · exact ⟨info', mem_cons_of_mem _ later, holds⟩

/-- What `Check_` has seen behind some entries whose numbers differ. -/
theorem seen_foldl (entries : List (Sigma fun _ : Nat => CAddrInfo))
    (distinct : (entries.map Sigma.fst).Nodup) (seen : Seen)
    (apart : ∀ e ∈ entries, e.1 ∉ seen.setTried ∧ seen.mapNew.lookup e.1 = none) :
    let after := entries.foldl (fun seen e => seen.add e.1 e.2) seen
    (∀ nId, nId ∈ after.setTried ↔ nId ∈ seen.setTried ∨
      ∃ info, ⟨nId, info⟩ ∈ entries ∧ info.fInTried = true) ∧
    (∀ nId left, after.mapNew.lookup nId = some left ↔ seen.mapNew.lookup nId = some left ∨
      ∃ info, ⟨nId, info⟩ ∈ entries ∧ info.fInTried = false ∧ left = info.nRefCount) ∧
    after.setTried.card = seen.setTried.card + entries.countP (fun e => e.2.fInTried) ∧
    after.mapNew.size = seen.mapNew.size + entries.countP fun e => !e.2.fInTried := by
  induction entries generalizing seen with
  | nil => simp
  | cons e entries ih =>
    obtain ⟨n, info⟩ := e
    obtain ⟨new, distinct⟩ := nodup_cons.mp distinct
    obtain ⟨⟨notSet, notMap⟩, apart⟩ := forall_mem_cons.mp apart
    obtain ⟨inSet, inMap, card, size⟩ := ih distinct (seen.add n info) (by
      intro e member
      obtain ⟨notSet', notMap'⟩ := apart e member
      have other : e.1 ≠ n := fun same => new (mem_map.mpr ⟨e, member, same⟩)
      rw [Seen.mem_add, Option.eq_none_iff_forall_ne_some]
      refine ⟨fun here => here.elim notSet' fun first => other first.1, fun left here => ?_⟩
      rcases (Seen.lookup_add notMap).mp here with before | first
      · rw [notMap'] at before
        cases before
      · exact other first.1)
    obtain ⟨card', size'⟩ := @Seen.size_add seen n info notSet notMap
    refine ⟨fun nId => ?_, fun nId left => ?_, ?_, ?_⟩
    · rw [foldl_cons, inSet, Seen.mem_add, or_assoc, exists_entry_cons]
    · rw [foldl_cons, inMap, Seen.lookup_add notMap, or_assoc, exists_entry_cons]
    · rw [foldl_cons, card, countP_cons, card', Nat.add_assoc, Nat.add_comm (ite ..)]
    · rw [foldl_cons, size, countP_cons, size', Nat.add_assoc, Nat.add_comm (ite ..)]

namespace Tracked

variable {hashLow64} {s : CAddrMan}

theorem checkInfos_eq (tracked : Tracked hashLow64 ∅ 0 0 s)
    (entries : List (Sigma fun _ : Nat => CAddrInfo))
    (all : ∀ e ∈ entries, s.mapInfo.lookup e.1 = some e.2) (seen : Seen) :
    s.checkInfos entries seen = .ok (entries.foldl (fun seen e => seen.add e.1 e.2) seen) := by
  induction entries generalizing seen with
  | nil => rfl
  | cons e entries ih =>
    obtain ⟨n, info⟩ := e
    have found : s.mapInfo.lookup n = some info := all ⟨n, info⟩ mem_cons_self
    have place := tracked.inPlace n info found
    have counted : classify seen n info = .ok (seen.add n info) := by
      unfold classify Seen.add
      cases flag : info.fInTried with
      | true =>
        obtain ⟨none, -, success⟩ := place.tried flag
        rw [if_pos rfl, if_pos rfl, if_neg success, if_neg (by rw [place.refs, none]; simp)]
      | false =>
        have some_slot := place.new flag (Set.notMem_empty n)
        have few := place.few
        have refs := place.refs
        simp only [Bool.false_eq_true, if_false]
        rw [if_neg (by omega), if_neg (by omega)]
    have linked : s.checkLinks n info = .ok () := by
      obtain ⟨i, position, here⟩ := tracked.position found
      have below := (List.getElem?_eq_some_iff.mp here).1
      have address : s.mapAddr.lookup info.service.ip = some n :=
        (tracked.inverse n info.service.ip).mp (by rw [addrOf, found]; rfl)
      unfold checkLinks
      rw [address, position, if_neg (by simp), if_neg, if_neg, if_neg]
      · exact Int64.not_lt.mpr place.times.2
      · exact Int64.not_lt.mpr place.times.1
      rintro (negative | beyond | other)
      · omega
      · omega
      · exact other (by rw [Int.toNat_natCast, here])
    rw [checkInfos, counted]
    simp only [linked]
    exact ih (fun e member => all e (mem_cons_of_mem _ member)) _

/-- Two slots of the "tried" table hold different entries. -/
theorem triedSlot_unique {pending : Set Nat} {newAhead triedAhead : Int}
    (tracked : Tracked hashLow64 pending newAhead triedAhead s) {slot slot' : TriedSlot} {nId : Nat}
    (here : s.vvTried slot = some nId) (there : s.vvTried slot' = some nId) : slot = slot' := by
  obtain ⟨info, found, -, own⟩ := tracked.triedSlot slot nId here
  obtain ⟨info', found', -, own'⟩ := tracked.triedSlot slot' nId there
  rw [found] at found'
  rw [own, own', Option.some.inj found']

section

variable (tracked : Tracked hashLow64 ∅ 0 0 s)
include tracked

theorem checkTriedTable_eq (slots : List TriedSlot) (distinct : slots.Nodup) (setTried : Finset Nat)
    (all : ∀ slot ∈ slots, ∀ nId, s.vvTried slot = some nId → nId ∈ setTried) :
    ∃ rest, s.checkTriedTable hashLow64 slots setTried = .ok rest ∧
      ∀ nId, nId ∈ rest ↔ nId ∈ setTried ∧ ∀ slot ∈ slots, s.vvTried slot ≠ some nId := by
  induction slots generalizing setTried with
  | nil => exact ⟨setTried, rfl, by simp⟩
  | cons slot slots ih =>
    obtain ⟨new, distinct⟩ := nodup_cons.mp distinct
    cases held : s.vvTried slot with
    | none =>
      obtain ⟨rest, result, inRest⟩ := ih distinct setTried
        fun other member => all other (mem_cons_of_mem _ member)
      refine ⟨rest, by rw [checkTriedTable, held, result], fun nId => ?_⟩
      rw [inRest, forall_mem_cons, held]
      simp
    | some n =>
      obtain ⟨info, found, -, own⟩ := tracked.triedSlot slot n held
      obtain ⟨rest, result, inRest⟩ := ih distinct (setTried.erase n) (by
        intro other member nId there
        refine Finset.mem_erase.mpr ⟨?_, all other (mem_cons_of_mem _ member) nId there⟩
        rintro rfl
        exact new (tracked.triedSlot_unique held there ▸ member))
      have member := all slot mem_cons_self n held
      have bucket := congrArg Prod.fst own
      have pos := congrArg Prod.snd own
      simp only [CAddrInfo.triedSlot] at bucket pos
      refine ⟨rest, ?_, fun nId => ?_⟩
      · rw [checkTriedTable, held]
        simp only [found, Option.getD_some]
        rw [if_neg (by simpa using member), if_neg (by simpa using bucket.symm),
          if_neg (by rw [bucket]; simpa using pos.symm), result]
      · rw [inRest, forall_mem_cons, held, Finset.mem_erase, ne_eq, ne_eq,
          Option.some.injEq, eq_comm (a := nId)]
        exact and_assoc.trans and_left_comm

theorem checkNewTable_eq (slots : List NewSlot) (mapNew : AssocMap Nat Int)
    (positive : ∀ nId left, mapNew.lookup nId = some left → 0 < left)
    (enough : ∀ nId, held slots s.vvNew nId ≤ (mapNew.lookup nId).getD 0) :
    ∃ rest, s.checkNewTable hashLow64 slots mapNew = .ok rest ∧
      (∀ nId left, rest.lookup nId = some left → 0 < left) ∧
      ∀ nId, (rest.lookup nId).getD 0 = (mapNew.lookup nId).getD 0 - held slots s.vvNew nId := by
  induction slots generalizing mapNew with
  | nil => exact ⟨mapNew, rfl, positive, by simp⟩
  | cons slot slots ih =>
    simp only [held_cons] at enough ⊢
    cases here : s.vvNew slot with
    | none =>
      obtain ⟨rest, result, stillPositive, counts⟩ := ih mapNew positive fun nId => by
        have all := enough nId
        rw [here, if_neg (by simp)] at all
        exact all
      refine ⟨rest, by rw [checkNewTable, here, result], stillPositive, fun nId => ?_⟩
      rw [counts, if_neg (by simp)]
      rfl
    | some n =>
      obtain ⟨info, found, own⟩ := tracked.newSlot slot n here
      have pos := congrArg Prod.snd own
      simp only [CAddrInfo.newSlotIn] at pos
      have one := enough n
      rw [here, if_pos rfl] at one
      obtain ⟨left, known⟩ : ∃ left, mapNew.lookup n = some left := by
        cases known : mapNew.lookup n with
        | none =>
          rw [known, Option.getD_none] at one
          omega
        | some left => exact ⟨left, rfl⟩
      rw [known, Option.getD_some] at one
      -- whether the entry is erased or counted down, as many slots are left to it
      obtain ⟨next, nextEq, nextLookup⟩ : ∃ next : AssocMap Nat Int,
          s.checkNewTable hashLow64 (slot :: slots) mapNew = s.checkNewTable hashLow64 slots next ∧
          ∀ nId, next.lookup nId = if nId = n then (if left - 1 = 0 then none else some (left - 1))
            else mapNew.lookup nId := by
        have enter : s.checkNewTable hashLow64 (slot :: slots) mapNew =
            if left - 1 = 0 then s.checkNewTable hashLow64 slots (mapNew.erase n)
            else s.checkNewTable hashLow64 slots (mapNew.insert n (left - 1)) := by
          rw [checkNewTable, here]
          simp only [known, found, Option.getD_some]
          rw [if_neg (by simpa using pos.symm)]
        by_cases last : left - 1 = 0
        · exact ⟨mapNew.erase n, by rw [enter, if_pos last], fun nId => by
            rw [lookup_erase_eq, if_pos last]⟩
        · exact ⟨mapNew.insert n (left - 1), by rw [enter, if_neg last], fun nId => by
            rw [lookup_insert_eq, if_neg last]⟩
      have value : ∀ nId, (next.lookup nId).getD 0 =
          (mapNew.lookup nId).getD 0 - if some n = some nId then 1 else 0 := by
        intro nId
        rw [nextLookup]
        by_cases same : nId = n
        · subst same
          rw [if_pos rfl, if_pos rfl, known, Option.getD_some]
          by_cases last : left - 1 = 0
          · rw [if_pos last, last]
            rfl
          · rw [if_neg last]
            rfl
        · rw [if_neg same, if_neg (by simpa using Ne.symm same), Int.sub_zero]
      obtain ⟨rest, result, stillPositive, counts⟩ := ih next (by
        intro nId remaining there
        rw [nextLookup] at there
        by_cases same : nId = n
        · rw [if_pos same] at there
          by_cases last : left - 1 = 0
          · rw [if_pos last] at there
            cases there
          · rw [if_neg last] at there
            have equal := Option.some.inj there
            omega
        · rw [if_neg same] at there
          exact positive nId remaining there) (by
        intro nId
        have all := enough nId
        rw [here] at all
        rw [value]
        by_cases same : some n = some nId
        · rw [if_pos same] at all ⊢
          omega
        · rw [if_neg same] at all ⊢
          omega)
      refine ⟨rest, by rw [nextEq, result], stillPositive, fun nId => ?_⟩
      rw [counts, value]
      split <;> omega

/-- A tracked address manager with a key passes its check. -/
theorem check_eq_zero (key : s.nKey ≠ 0) :
    s.check hashLow64 = 0 := by
  have nNew := tracked.nNew
  have nTried := tracked.nTried
  have length : (s.vRandom.length : Int) = s.nTried + s.nNew := by
    have all := s.mapInfo.count_add_count_not fun info => info.fInTried
    rw [tracked.length_vRandom]
    omega
  have seen := seen_foldl s.mapInfo.inOrder s.mapInfo.nodup_keys_inOrder ⟨∅, ∅⟩ (by simp)
  have infos := tracked.checkInfos_eq s.mapInfo.inOrder
    (fun e member => mem_inOrder.mp member) ⟨∅, ∅⟩
  obtain ⟨inSet, inMap, card, size⟩ := seen
  generalize s.mapInfo.inOrder.foldl (fun (seen : Seen) e => seen.add e.1 e.2) ⟨∅, ∅⟩ = seen at *
  have counted : ∀ p : CAddrInfo → Bool,
      s.mapInfo.inOrder.countP (fun e => p e.2) = s.mapInfo.count p := fun p =>
    s.mapInfo.inOrder_perm.countP_eq _
  rw [counted fun info => info.fInTried] at card
  rw [counted fun info => !info.fInTried] at size
  have card : seen.setTried.card = s.mapInfo.count fun info => info.fInTried := by
    rw [card]
    simp
  have size : seen.mapNew.size = s.mapInfo.count fun info => !info.fInTried := by
    rw [size]
    exact Nat.zero_add _
  have inSet : ∀ nId, nId ∈ seen.setTried ↔
      ∃ info, s.mapInfo.lookup nId = some info ∧ info.fInTried = true := by
    intro nId
    rw [inSet nId]
    simp [mem_inOrder]
  have inMap : ∀ nId left, seen.mapNew.lookup nId = some left ↔
      ∃ info, s.mapInfo.lookup nId = some info ∧ info.fInTried = false ∧ left = info.nRefCount := by
    intro nId left
    rw [inMap nId left]
    simp [mem_inOrder]
  obtain ⟨setTried, triedTable, left⟩ := tracked.checkTriedTable_eq triedSlots nodup_triedSlots
    seen.setTried (by
      intro slot _ nId here
      obtain ⟨info, found, isTried, -⟩ := tracked.triedSlot slot nId here
      exact (inSet nId).mpr ⟨info, found, isTried⟩)
  have setTriedEmpty : setTried.card = 0 := by
    rw [Finset.card_eq_zero, Finset.eq_empty_iff_forall_notMem]
    intro nId member
    obtain ⟨wasThere, nowhere⟩ := (left nId).mp member
    obtain ⟨info, found, isTried⟩ := (inSet nId).mp wasThere
    exact nowhere _ (mem_triedSlots _) ((tracked.inPlace nId info found).tried isTried).2.1
  have inTable : ∀ nId, ((seen.mapNew.lookup nId).getD 0) = held newSlots s.vvNew nId := by
    intro nId
    cases known : seen.mapNew.lookup nId with
    | some left =>
      obtain ⟨info, found, -, refs⟩ := (inMap nId left).mp known
      rw [Option.getD_some, refs, (tracked.inPlace nId info found).refs]
    | none =>
      rw [Option.getD_none, eq_comm, Int.natCast_eq_zero, held_eq_zero_iff]
      intro slot here
      obtain ⟨info, found, -⟩ := tracked.newSlot slot nId here
      have place := tracked.inPlace nId info found
      cases flag : info.fInTried with
      | true => exact held_eq_zero_iff.mp (place.tried flag).1 slot here
      | false =>
        rw [(inMap nId _).mpr ⟨info, found, flag, rfl⟩] at known
        cases known
  obtain ⟨mapNew, newTable, positive, counts⟩ := tracked.checkNewTable_eq newSlots seen.mapNew (by
      intro nId left known
      obtain ⟨info, found, isNew, refs⟩ := (inMap nId left).mp known
      have place := tracked.inPlace nId info found
      have some_slot := place.new isNew (Set.notMem_empty nId)
      rw [refs, place.refs]
      omega) (fun nId => Int.le_of_eq (inTable nId).symm)
  have mapNewEmpty : mapNew.size = 0 := by
    rw [size_eq_zero_iff]
    intro nId
    cases known : mapNew.lookup nId with
    | none => rfl
    | some left =>
      have more := positive nId left known
      have rest := counts nId
      rw [known, Option.getD_some, inTable] at rest
      omega
  unfold check
  rw [if_neg (by simpa using length), infos]
  simp only
  rw [if_neg (by rw [card]; omega), if_neg (by rw [size]; omega), triedTable]
  rw [newTable]
  simp only
  rw [checkRest, if_neg (by simp [setTriedEmpty]), if_neg (by simp [mapNewEmpty]), if_neg key]

end

end Tracked

end CAddrMan

end Esbcoin
