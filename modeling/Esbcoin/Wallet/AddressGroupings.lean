import Esbcoin.Lib.Linked
import Esbcoin.Wallet.ObfuscationRounds
import Mathlib.Data.Finset.Sort
import Mathlib.Data.Finset.Insert

/-!
# The groups of addresses

Rendering of `CWallet::GetAddressGroupings` (`src/wallet.cpp:3005-3086`). The groups of single
transactions are merged one after the other, in sets that are reached by pointers: `heap` holds the
sets that are not deleted, and to read or delete another is an error.
-/

namespace Esbcoin

open Linked List

/-- The address book and the hash of a public key besides, and what decides the order of a loop or
the address of a new set. -/
structure GroupingsEnv extends RoundsEnv where
  hash160 : List UInt8 → List UInt8
  /-- `mapAddressBook.count`. -/
  inAddressBook : CTxDestination → Bool
  order : Finset CTxDestination → List CTxDestination
  mem_order : ∀ address grouping, address ∈ order grouping ↔ address ∈ grouping
  orderGroups : Finset (Finset CTxDestination) → List (Finset CTxDestination)
  mem_orderGroups : ∀ grouping groupings, grouping ∈ orderGroups groupings ↔ grouping ∈ groupings
  newPointer : List Nat → Nat
  newPointer_new : ∀ live, newPointer live ∉ live

section Model

variable (env : GroupingsEnv)

/-- The destination that an output pays. -/
def GroupingsEnv.destination (out : CTxOut) : Option CTxDestination :=
  extractDestination env.hash160 out.scriptPubKey

/-- `IsChange` (`wallet.cpp:947-966`). `::IsMine` of a script is `IsMine` of the output. -/
def isChange (txout : CTxOut) : Bool :=
  if env.isMine txout ≠ .no then
    match env.destination txout with
    | none => true
    | some address => !env.inAddressBook address
  else false

/-- The addresses of the inputs that are mine (`wallet.cpp:3017-3025`). -/
def inputAddresses (tx : CTransaction) : List CTxDestination :=
  tx.vin.filterMap fun txin =>
    if env.isMineInput txin = .no then none
    else
      ((env.mapWallet.lookup txin.prevout.hash).bind fun prev =>
        prev.vout[txin.prevout.n.toNat]?).bind env.destination

/-- The addresses of change (`wallet.cpp:3029-3036`). -/
def changeAddresses (tx : CTransaction) : List CTxDestination :=
  tx.vout.filterMap fun txout => if isChange env txout then env.destination txout else none

/-- The addresses of the outputs that are mine (`wallet.cpp:3045-3052`). -/
def ownAddresses (tx : CTransaction) : List CTxDestination :=
  tx.vout.filterMap fun txout => if env.isMine txout = .no then none else env.destination txout

/-- `grouping` behind the outputs of a transaction: the change only goes with an input. -/
def inputGrouping (tx : CTransaction) : Finset CTxDestination :=
  let any_mine := !(inputAddresses env tx).isEmpty
  (inputAddresses env tx ++ if any_mine then changeAddresses env tx else []).toFinset

/-- What a transaction adds to `groupings` (`wallet.cpp:3011-3053`). -/
def txGroupings (tx : CTransaction) : List (Finset CTxDestination) :=
  (if 0 < tx.vin.length ∧ 0 < (inputGrouping env tx).card then [inputGrouping env tx] else []) ++
    (ownAddresses env tx).map fun address => {address}

/-- The groups of the transactions of the wallet. -/
def walletGroupings : Finset (Finset CTxDestination) :=
  (env.mapWallet.entries.flatMap fun walletEntry => txGroupings env walletEntry.2).toFinset

/-- The sets that pointers lead to, `uniqueGroupings` and `setmap`. -/
structure GroupSets where
  heap : AssocMap Nat (Finset CTxDestination) := ∅
  uniqueGroupings : Finset Nat := ∅
  setmap : AssocMap CTxDestination Nat := ∅

/-- Takes sets off the heap, one pointer after the other. -/
def takeSets {β : Type} (take : β → Finset CTxDestination → β) :
    List Nat → AssocMap Nat (Finset CTxDestination) → β →
      Option (β × AssocMap Nat (Finset CTxDestination))
  | [], heap, taken => some (taken, heap)
  | hit :: hits, heap, taken =>
    match heap.lookup hit with
    | none => none
    | some group => takeSets take hits (heap.erase hit) (take taken group)

/-- `hits` (`wallet.cpp:3061-3065`). -/
def groupHits (s : GroupSets) (grouping : Finset CTxDestination) : Finset Nat :=
  (env.order grouping).foldl (fun hits address =>
    match s.setmap.lookup address with
    | some group => insert group hits
    | none => hits) ∅

/-- One turn of the loop that merges (`wallet.cpp:3059-3080`). -/
def mergeGrouping (s : GroupSets) (grouping : Finset CTxDestination) : Option GroupSets :=
  let hits := groupHits env s grouping
  let pointer := env.newPointer s.heap.keys
  match takeSets (fun merged group => merged ∪ group) (hits.sort (· ≤ ·)) s.heap grouping with
  | none => none
  | some (merged, heap) =>
    some {
      heap := heap.insert pointer merged
      uniqueGroupings := insert pointer (s.uniqueGroupings \ hits)
      setmap := (env.order merged).foldl (fun setmap element => setmap.insert element pointer)
        s.setmap }

/-- Merges groupings one after the other. -/
def mergeGroupings : List (Finset CTxDestination) → GroupSets → Option GroupSets
  | [], s => some s
  | grouping :: groupings, s =>
    match mergeGrouping env s grouping with
    | none => none
    | some s => mergeGroupings groupings s

/-- `CWallet::GetAddressGroupings` (`wallet.cpp:3005-3086`). -/
def getAddressGroupings : Option (Finset (Finset CTxDestination)) :=
  match mergeGroupings env (env.orderGroups (walletGroupings env)) {} with
  | none => none
  | some s =>
    (takeSets (fun ret group => insert group ret) (s.uniqueGroupings.sort (· ≤ ·)) s.heap ∅).map
      Prod.fst

end Model

/-! ## The loops -/

section Loops

variable {env : GroupingsEnv} {heap : AssocMap Nat (Finset CTxDestination)}

/-- The set that a pointer leads to. -/
def contents (heap : AssocMap Nat (Finset CTxDestination)) (pointer : Nat) :
    Finset CTxDestination :=
  (heap.lookup pointer).getD ∅

/-- Different pointers to sets that are not deleted are all read. -/
theorem takeSets_some {β : Type} (take : β → Finset CTxDestination → β) {hits : List Nat}
    (distinct : hits.Nodup) (live : ∀ p ∈ hits, p ∈ heap) (taken : β) :
    ∃ heap', takeSets take hits heap taken =
        some ((hits.map (contents heap)).foldl take taken, heap') ∧
      ∀ p, heap'.lookup p = if p ∈ hits then none else heap.lookup p := by
  induction hits generalizing heap taken with
  | nil => exact ⟨heap, rfl, by simp⟩
  | cons hit hits ih =>
    obtain ⟨first, live⟩ := forall_mem_cons.mp live
    obtain ⟨new, distinct⟩ := nodup_cons.mp distinct
    obtain ⟨group, found⟩ := Option.isSome_iff_exists.mp (AList.lookup_isSome.mpr first)
    have other : ∀ p ∈ hits, p ≠ hit := fun p member same => new (same ▸ member)
    have live' : ∀ p ∈ hits, p ∈ heap.erase hit := fun p member =>
      AList.mem_erase.mpr ⟨other p member, live p member⟩
    obtain ⟨heap', takes, left⟩ := ih distinct live' (take taken group)
    have same : hits.map (contents (heap.erase hit)) = hits.map (contents heap) := by
      apply map_congr_left
      intro p member
      rw [contents, AList.lookup_erase_ne (other p member), contents]
    refine ⟨heap', ?_, fun p => ?_⟩
    · rw [takeSets, found]
      dsimp only
      rw [takes, same, map_cons, foldl_cons, contents, found, Option.getD_some]
    rw [left p]
    by_cases here : p = hit
    · subst here
      rw [if_neg new, AList.lookup_erase, if_pos mem_cons_self]
    · rw [AList.lookup_erase_ne here]
      simp [here]

theorem mem_foldl_union {sets : List (Finset CTxDestination)} {taken : Finset CTxDestination}
    {a : CTxDestination} :
    a ∈ sets.foldl (fun merged group => merged ∪ group) taken ↔
      a ∈ taken ∨ ∃ group ∈ sets, a ∈ group := by
  induction sets generalizing taken with
  | nil => simp
  | cons group sets ih => simp [ih, or_assoc]

theorem mem_foldl_insert {sets : List (Finset CTxDestination)}
    {ret : Finset (Finset CTxDestination)} {g : Finset CTxDestination} :
    g ∈ sets.foldl (fun ret group => insert group ret) ret ↔ g ∈ ret ∨ g ∈ sets := by
  induction sets generalizing ret with
  | nil => simp
  | cons group sets ih =>
    rw [foldl_cons, ih, Finset.mem_insert, mem_cons]
    tauto

/-- The hits are the sets that an address of the group is mapped to. -/
theorem mem_groupHits {s : GroupSets} {grouping : Finset CTxDestination} {p : Nat} :
    p ∈ groupHits env s grouping ↔ ∃ a ∈ grouping, s.setmap.lookup a = some p := by
  have loop : ∀ (addresses : List CTxDestination) (hits : Finset Nat),
      p ∈ addresses.foldl (fun hits address =>
        match s.setmap.lookup address with
        | some group => insert group hits
        | none => hits) hits ↔ p ∈ hits ∨ ∃ a ∈ addresses, s.setmap.lookup a = some p := by
    intro addresses
    induction addresses with
    | nil => simp
    | cons a addresses ih =>
      intro hits
      rw [foldl_cons, ih, exists_mem_cons_iff]
      cases found : s.setmap.lookup a with
      | none => simp
      | some group =>
        rw [Finset.mem_insert, Option.some_inj]
        tauto
  rw [groupHits, loop]
  simp [env.mem_order]

/-- What the addresses are mapped to behind the last loop. -/
theorem lookup_foldl_insert {elements : List CTxDestination} {pointer : Nat}
    {setmap : AssocMap CTxDestination Nat} {a : CTxDestination} :
    (elements.foldl (fun setmap element => setmap.insert element pointer) setmap).lookup a =
      if a ∈ elements then some pointer else setmap.lookup a := by
  induction elements generalizing setmap with
  | nil => simp
  | cons element elements ih =>
    rw [foldl_cons, ih]
    by_cases later : a ∈ elements
    · simp [later]
    by_cases same : a = element
    · subst same
      rw [if_neg later, AList.lookup_insert, if_pos mem_cons_self]
    · rw [if_neg later, AList.lookup_insert_ne same]
      simp [later, same]

end Loops

/-! ## The sets agree with the components -/

/-- The pointers lead to the sets that are not deleted, the map leads every address to its set, and
the sets are the components of the groups. -/
structure GroupsAgree (groups : List (Finset CTxDestination)) (s : GroupSets) : Prop where
  live : ∀ p, p ∈ s.uniqueGroupings ↔ p ∈ s.heap
  mapped : ∀ a p, s.setmap.lookup a = some p ↔ ∃ g, s.heap.lookup p = some g ∧ a ∈ g
  components : Components groups {B | ∃ p, s.heap.lookup p = some B}

section Agree

variable {env : GroupingsEnv} {s : GroupSets} {groups : List (Finset CTxDestination)}

theorem groupsAgree_nil : GroupsAgree [] {} where
  live := by simp
  mapped := by simp
  components := by
    have none : {B | ∃ p, (∅ : AssocMap Nat (Finset CTxDestination)).lookup p = some B} = ∅ := by
      simp
    exact none ▸ components_nil

/-- The hits are the sets that the group meets. -/
theorem GroupsAgree.hit_iff (agree : GroupsAgree groups s) {grouping B : Finset CTxDestination}
    {p : Nat} (found : s.heap.lookup p = some B) :
    p ∈ groupHits env s grouping ↔ ∃ b ∈ B, b ∈ grouping := by
  rw [mem_groupHits]
  constructor
  · rintro ⟨a, new, leads⟩
    obtain ⟨B', found', inside⟩ := (agree.mapped a p).mp leads
    obtain rfl := Option.some.inj (found.symm.trans found')
    exact ⟨a, inside, new⟩
  · rintro ⟨b, inside, new⟩
    exact ⟨b, new, (agree.mapped b p).mpr ⟨B, found, inside⟩⟩

theorem GroupsAgree.hit_live (agree : GroupsAgree groups s) {grouping : Finset CTxDestination}
    {p : Nat} (hit : p ∈ groupHits env s grouping) : ∃ B, s.heap.lookup p = some B := by
  obtain ⟨a, -, leads⟩ := mem_groupHits.mp hit
  obtain ⟨B, found, -⟩ := (agree.mapped a p).mp leads
  exact ⟨B, found⟩

/-- The pointers agree again when a new pointer leads to the group, merged with what it meets, and
the sets that it meets are deleted. -/
theorem GroupsAgree.merge (agree : GroupsAgree groups s) {s' : GroupSets} {pointer : Nat}
    {grouping merged : Finset CTxDestination} (new : pointer ∉ s.heap)
    (mem_merged : ∀ a, a ∈ merged ↔ a ∈ grouping ∨
      ∃ B ∈ {B | ∃ p, s.heap.lookup p = some B}, (∃ b ∈ B, b ∈ grouping) ∧ a ∈ B)
    (heap : ∀ p, s'.heap.lookup p = if p = pointer then some merged
      else if p ∈ groupHits env s grouping then none else s.heap.lookup p)
    (unique : s'.uniqueGroupings = insert pointer (s.uniqueGroupings \ groupHits env s grouping))
    (setmap : ∀ a, s'.setmap.lookup a = if a ∈ merged then some pointer else s.setmap.lookup a) :
    GroupsAgree (groups ++ [grouping]) s' := by
  have lookup : ∀ p B, s'.heap.lookup p = some B ↔ (p = pointer ∧ B = merged) ∨
      (s.heap.lookup p = some B ∧ ∀ b ∈ B, b ∉ grouping) := by
    intro p B
    rw [heap p]
    by_cases here : p = pointer
    · subst here
      rw [if_pos rfl, AList.lookup_eq_none.mpr new, Option.some_inj]
      simp [eq_comm]
    rw [if_neg here]
    split
    · rename_i hit
      constructor
      · intro found
        cases found
      rintro (⟨same, -⟩ | ⟨found, apart⟩)
      · exact absurd same here
      · obtain ⟨b, inside, meets⟩ := (agree.hit_iff found).mp hit
        exact absurd meets (apart b inside)
    rename_i missed
    constructor
    · intro found
      refine Or.inr ⟨found, fun b inside meets => missed ?_⟩
      exact (agree.hit_iff found).mpr ⟨b, inside, meets⟩
    · rintro (⟨same, -⟩ | ⟨found, -⟩)
      · exact absurd same here
      · exact found
  have mem_heap : ∀ (t : GroupSets) p, p ∈ t.heap ↔ ∃ B, t.heap.lookup p = some B := by
    intro t p
    rw [← AList.lookup_isSome, Option.isSome_iff_exists]
  constructor
  · intro p
    rw [unique, Finset.mem_insert, Finset.mem_sdiff, agree.live, mem_heap, mem_heap]
    constructor
    · rintro (here | ⟨⟨B, found⟩, missed⟩)
      · exact ⟨merged, (lookup p merged).mpr (Or.inl ⟨here, rfl⟩)⟩
      · refine ⟨B, (lookup p B).mpr (Or.inr ⟨found, fun b inside meets => missed ?_⟩)⟩
        exact (agree.hit_iff found).mpr ⟨b, inside, meets⟩
    rintro ⟨B, found⟩
    rcases (lookup p B).mp found with ⟨here, -⟩ | ⟨old, apart⟩
    · exact Or.inl here
    · refine Or.inr ⟨⟨B, old⟩, fun hit => ?_⟩
      obtain ⟨b, inside, meets⟩ := (agree.hit_iff old).mp hit
      exact apart b inside meets
  · intro a p
    rw [setmap a]
    split
    · rename_i inside
      constructor
      · intro leads
        exact ⟨merged, (lookup p merged).mpr (Or.inl ⟨(Option.some.inj leads).symm, rfl⟩), inside⟩
      rintro ⟨B, found, there⟩
      rcases (lookup p B).mp found with ⟨here, -⟩ | ⟨old, apart⟩
      · rw [here]
      -- A set that is left has no address of the merged one.
      · rcases (mem_merged a).mp inside with meets | ⟨B', ⟨p', found'⟩, ⟨b, among, meets⟩, also⟩
        · exact absurd meets (apart a there)
        · obtain rfl := agree.components.eq_of_mem ⟨p, old⟩ ⟨p', found'⟩ there also
          exact absurd meets (apart b among)
    · rename_i outside
      rw [agree.mapped]
      constructor
      · rintro ⟨B, found, there⟩
        refine ⟨B, (lookup p B).mpr (Or.inr ⟨found, fun b among meets => outside ?_⟩), there⟩
        exact (mem_merged a).mpr (Or.inr ⟨B, ⟨p, found⟩, ⟨b, among, meets⟩, there⟩)
      rintro ⟨B, found, there⟩
      rcases (lookup p B).mp found with ⟨-, rfl⟩ | ⟨old, -⟩
      · exact absurd there outside
      · exact ⟨B, old, there⟩
  · have sets : {B | ∃ p, s'.heap.lookup p = some B} = insert merged
        {B | B ∈ {B | ∃ p, s.heap.lookup p = some B} ∧ ∀ b ∈ B, b ∉ grouping} := by
      ext B
      simp only [Set.mem_ofPred_eq, Set.mem_insert_iff, lookup]
      constructor
      · rintro ⟨p, ⟨-, rfl⟩ | ⟨old, apart⟩⟩
        · exact Or.inl rfl
        · exact Or.inr ⟨⟨p, old⟩, apart⟩
      · rintro (rfl | ⟨⟨p, old⟩, apart⟩)
        · exact ⟨pointer, Or.inl ⟨rfl, rfl⟩⟩
        · exact ⟨p, Or.inr ⟨old, apart⟩⟩
    rw [sets]
    exact agree.components.merge mem_merged

/-- One group is merged with the sets that it meets. -/
theorem mergeGrouping_agree (agree : GroupsAgree groups s) (grouping : Finset CTxDestination) :
    ∃ s', mergeGrouping env s grouping = some s' ∧ GroupsAgree (groups ++ [grouping]) s' := by
  have live : ∀ p ∈ (groupHits env s grouping).sort (· ≤ ·), p ∈ s.heap := by
    intro p hit
    obtain ⟨B, found⟩ := agree.hit_live ((Finset.mem_sort _).mp hit)
    exact AList.lookup_isSome.mp (Option.isSome_iff_exists.mpr ⟨B, found⟩)
  obtain ⟨heap', takes, left⟩ := takeSets_some (fun merged group => merged ∪ group)
    (Finset.sort_nodup (groupHits env s grouping) (· ≤ ·)) live grouping
  have mem_merged : ∀ a, a ∈ (((groupHits env s grouping).sort (· ≤ ·)).map (contents s.heap)).foldl
      (fun merged group => merged ∪ group) grouping ↔ a ∈ grouping ∨
      ∃ B ∈ {B | ∃ p, s.heap.lookup p = some B}, (∃ b ∈ B, b ∈ grouping) ∧ a ∈ B := by
    intro a
    rw [mem_foldl_union]
    refine or_congr Iff.rfl ?_
    constructor
    · rintro ⟨group, member, inside⟩
      obtain ⟨p, hit, rfl⟩ := mem_map.mp member
      rw [Finset.mem_sort] at hit
      obtain ⟨B, found⟩ := agree.hit_live hit
      rw [contents, found, Option.getD_some] at inside
      exact ⟨B, ⟨p, found⟩, (agree.hit_iff found).mp hit, inside⟩
    · rintro ⟨B, ⟨p, found⟩, meets, inside⟩
      refine ⟨B, mem_map.mpr ⟨p, (Finset.mem_sort _).mpr ?_, ?_⟩, inside⟩
      · exact (agree.hit_iff found).mpr meets
      · rw [contents, found, Option.getD_some]
  rw [mergeGrouping, takes]
  refine ⟨_, rfl, agree.merge (env.newPointer_new s.heap.keys) mem_merged ?_ rfl ?_⟩
  · intro p
    by_cases here : p = env.newPointer s.heap.keys
    · rw [if_pos here, here, AList.lookup_insert]
    · rw [if_neg here, AList.lookup_insert_ne here, left p]
      simp only [Finset.mem_sort]
  · intro a
    rw [lookup_foldl_insert]
    simp only [env.mem_order]

/-- The loop merges every group. -/
theorem mergeGroupings_agree {groupings : List (Finset CTxDestination)}
    (agree : GroupsAgree groups s) :
    ∃ s', mergeGroupings env groupings s = some s' ∧ GroupsAgree (groups ++ groupings) s' := by
  induction groupings generalizing groups s with
  | nil => exact ⟨s, rfl, by rwa [append_nil]⟩
  | cons grouping groupings ih =>
    obtain ⟨next, merges, agree'⟩ := @mergeGrouping_agree env s groups agree grouping
    rw [mergeGroupings, merges, append_cons]
    exact ih agree'

theorem getAddressGroupings_blocks (env : GroupingsEnv) :
    ∃ ret, getAddressGroupings env = some ret ∧
      Components (env.orderGroups (walletGroupings env)) (ret : Set (Finset CTxDestination)) := by
  obtain ⟨s, merges, agree⟩ := @mergeGroupings_agree env {} []
    (env.orderGroups (walletGroupings env)) groupsAgree_nil
  have live : ∀ p ∈ s.uniqueGroupings.sort (· ≤ ·), p ∈ s.heap := fun p member =>
    (agree.live p).mp ((Finset.mem_sort _).mp member)
  obtain ⟨heap', takes, -⟩ := takeSets_some (fun ret group => insert group ret)
    (Finset.sort_nodup s.uniqueGroupings (· ≤ ·)) live (∅ : Finset (Finset CTxDestination))
  have mem_ret : ∀ B, B ∈ ((s.uniqueGroupings.sort (· ≤ ·)).map (contents s.heap)).foldl
      (fun ret group => insert group ret) (∅ : Finset (Finset CTxDestination)) ↔
      ∃ p, s.heap.lookup p = some B := by
    intro B
    rw [mem_foldl_insert, mem_map]
    constructor
    · rintro (absent | ⟨p, member, rfl⟩)
      · cases absent
      · obtain ⟨B, found⟩ := Option.isSome_iff_exists.mp (AList.lookup_isSome.mpr (live p member))
        exact ⟨p, by rw [contents, found, Option.getD_some]⟩
    rintro ⟨p, found⟩
    refine Or.inr ⟨p, (Finset.mem_sort _).mpr ?_, ?_⟩
    · exact (agree.live p).mpr (AList.lookup_isSome.mp (Option.isSome_iff_exists.mpr ⟨B, found⟩))
    · rw [contents, found, Option.getD_some]
  generalize ((s.uniqueGroupings.sort (· ≤ ·)).map (contents s.heap)).foldl
    (fun ret group => insert group ret) (∅ : Finset (Finset CTxDestination)) = ret at takes mem_ret
  rw [getAddressGroupings, merges]
  dsimp only
  rw [takes]
  refine ⟨ret, rfl, ?_⟩
  have sets : {B | ∃ p, s.heap.lookup p = some B} = (ret : Set (Finset CTxDestination)) :=
    Set.ext fun B => (mem_ret B).symm
  exact sets ▸ agree.components

end Agree

/-! ## The addresses that are used together -/

section UsedTogether

variable {env : GroupingsEnv} {tx : CTransaction} {a b : CTxDestination}

/-- Some transaction of the wallet has the own address. -/
def IsOwnAddress (env : GroupingsEnv) (a : CTxDestination) : Prop :=
  ∃ hash tx, env.mapWallet.lookup hash = some tx ∧ a ∈ ownAddresses env tx

/-- A transaction of the wallet spends an output of mine with the one address, and one with the
other address or sends change there. -/
def UsedTogether (env : GroupingsEnv) (a b : CTxDestination) : Prop :=
  ∃ hash tx, env.mapWallet.lookup hash = some tx ∧ a ∈ inputAddresses env tx ∧
    (b ∈ inputAddresses env tx ∨ b ∈ changeAddresses env tx)

/-- What is spent is an output of the wallet. -/
theorem isOwnAddress_of_input (input : a ∈ inputAddresses env tx) : IsOwnAddress env a := by
  obtain ⟨txin, -, extracts⟩ := mem_filterMap.mp input
  split at extracts
  · cases extracts
  rename_i mine
  obtain ⟨out, spends, extracts⟩ := Option.bind_eq_some_iff.mp extracts
  obtain ⟨prev, filed, there⟩ := Option.bind_eq_some_iff.mp spends
  simp only [RoundsEnv.isMineInput, filed, there] at mine
  refine ⟨_, prev, filed, mem_filterMap.mpr ⟨out, mem_of_getElem? there, ?_⟩⟩
  rw [if_neg mine, extracts]

theorem isOwnAddress_of_change {hash : UInt256} (filed : env.mapWallet.lookup hash = some tx)
    (change : a ∈ changeAddresses env tx) : IsOwnAddress env a := by
  obtain ⟨out, member, extracts⟩ := mem_filterMap.mp change
  split at extracts
  · rename_i changes
    refine ⟨hash, tx, filed, mem_filterMap.mpr ⟨out, member, ?_⟩⟩
    unfold isChange at changes
    split at changes
    · rename_i mine
      rw [if_neg mine, extracts]
    · cases changes
  · cases extracts

theorem mem_inputGrouping : a ∈ inputGrouping env tx ↔ (∃ i, i ∈ inputAddresses env tx) ∧
    (a ∈ inputAddresses env tx ∨ a ∈ changeAddresses env tx) := by
  unfold inputGrouping
  cases inputs : inputAddresses env tx with
  | nil => simp
  | cons i rest =>
    rw [mem_toFinset, mem_append]
    exact ⟨fun inside => ⟨⟨i, mem_cons_self⟩, inside⟩, And.right⟩

theorem mem_txGroupings {g : Finset CTxDestination} :
    g ∈ txGroupings env tx ↔ (g = inputGrouping env tx ∧ ∃ i, i ∈ inputAddresses env tx) ∨
      ∃ a ∈ ownAddresses env tx, g = {a} := by
  have spends : (0 < tx.vin.length ∧ 0 < (inputGrouping env tx).card) ↔
      ∃ i, i ∈ inputAddresses env tx := by
    rw [Finset.card_pos]
    constructor
    · rintro ⟨-, a, inside⟩
      exact (mem_inputGrouping.mp inside).1
    · rintro ⟨i, input⟩
      obtain ⟨txin, member, -⟩ := mem_filterMap.mp input
      exact ⟨length_pos_of_mem member, i, mem_inputGrouping.mpr ⟨⟨i, input⟩, Or.inl input⟩⟩
  unfold txGroupings
  rw [mem_append, mem_map]
  refine or_congr ?_ ?_
  · split
    · rename_i some
      rw [mem_singleton]
      exact ⟨fun same => ⟨same, spends.mp some⟩, And.left⟩
    rename_i none
    constructor
    · intro member
      cases member
    · intro member
      exact absurd (spends.mpr member.2) none
  · exact ⟨fun ⟨a, own, same⟩ => ⟨a, own, same.symm⟩, fun ⟨a, own, same⟩ => ⟨a, own, same.symm⟩⟩

theorem mem_orderGroups_walletGroupings {g : Finset CTxDestination} :
    g ∈ env.orderGroups (walletGroupings env) ↔
      ∃ hash tx, env.mapWallet.lookup hash = some tx ∧ g ∈ txGroupings env tx := by
  rw [env.mem_orderGroups, walletGroupings, mem_toFinset, mem_flatMap]
  constructor
  · rintro ⟨walletEntry, filed, member⟩
    exact ⟨walletEntry.1, walletEntry.2, AList.mem_lookup_iff.mpr filed, member⟩
  · rintro ⟨hash, tx, filed, member⟩
    exact ⟨⟨hash, tx⟩, AList.mem_lookup_iff.mp filed, member⟩

/-- The groups have the addresses of the outputs that are mine. -/
theorem exists_grouping_iff :
    (∃ g ∈ env.orderGroups (walletGroupings env), a ∈ g) ↔ IsOwnAddress env a := by
  constructor
  · rintro ⟨g, member, inside⟩
    obtain ⟨hash, tx, filed, member⟩ := mem_orderGroups_walletGroupings.mp member
    rcases mem_txGroupings.mp member with ⟨rfl, -⟩ | ⟨own, there, rfl⟩
    · rcases (mem_inputGrouping.mp inside).2 with input | change
      · exact isOwnAddress_of_input input
      · exact isOwnAddress_of_change filed change
    · exact ⟨hash, tx, filed, Finset.mem_singleton.mp inside ▸ there⟩
  · rintro ⟨hash, tx, filed, own⟩
    refine ⟨{a}, mem_orderGroups_walletGroupings.mpr ⟨hash, tx, filed, ?_⟩,
      Finset.mem_singleton_self a⟩
    exact mem_txGroupings.mpr (Or.inr ⟨a, own, rfl⟩)

theorem chained_iff : Chained (env.orderGroups (walletGroupings env)) a b ↔
    Relation.EqvGen (UsedTogether env) a b := by
  constructor
  · apply eqvGen_of_steps
    rintro a b ⟨g, member, left, right⟩
    obtain ⟨hash, tx, filed, member⟩ := mem_orderGroups_walletGroupings.mp member
    rcases mem_txGroupings.mp member with ⟨rfl, i, input⟩ | ⟨own, -, rfl⟩
    · have first : UsedTogether env i a := ⟨hash, tx, filed, input, (mem_inputGrouping.mp left).2⟩
      have second : UsedTogether env i b := ⟨hash, tx, filed, input, (mem_inputGrouping.mp right).2⟩
      exact ((Relation.EqvGen.rel _ _ first).symm).trans _ _ _ (Relation.EqvGen.rel _ _ second)
    · rw [Finset.mem_singleton.mp left, Finset.mem_singleton.mp right]
      exact Relation.EqvGen.refl own
  · apply eqvGen_of_steps
    rintro a b ⟨hash, tx, filed, input, uses⟩
    have some : ∃ i, i ∈ inputAddresses env tx := ⟨a, input⟩
    refine chained_of_mem (mem_orderGroups_walletGroupings.mpr ⟨hash, tx, filed, ?_⟩)
      (mem_inputGrouping.mpr ⟨some, Or.inl input⟩) (mem_inputGrouping.mpr ⟨some, uses⟩)
    exact mem_txGroupings.mpr (Or.inl ⟨rfl, some⟩)

/-- `GetAddressGroupings` returns the partition of the addresses of the outputs that are mine into
the components of those that are used together. -/
theorem getAddressGroupings_components (env : GroupingsEnv) :
    ∃ ret, getAddressGroupings env = some ret ∧
      (∀ a b, (∃ g ∈ ret, a ∈ g ∧ b ∈ g) ↔ IsOwnAddress env a ∧ IsOwnAddress env b ∧
        Relation.EqvGen (UsedTogether env) a b) ∧
      (∀ g ∈ ret, ∀ g' ∈ ret, g ≠ g' → Disjoint g g') ∧
      (∀ g ∈ ret, g.Nonempty) ∧
      ∀ a, IsOwnAddress env a → ∃ g ∈ ret, a ∈ g := by
  obtain ⟨ret, returns, components⟩ := getAddressGroupings_blocks env
  refine ⟨ret, returns, fun a b => ?_, fun g member g' member' other => ?_, fun g member => ?_,
    fun a own => ?_⟩
  · have same := @Components.exists_block_iff _ _ _ a b components
    rw [exists_grouping_iff, chained_iff] at same
    refine same.trans ?_
    constructor
    · rintro ⟨own, chained⟩
      obtain ⟨g, member, -, inside⟩ := same.mpr ⟨own, chained⟩
      exact ⟨own, exists_grouping_iff.mp (components.within g member b inside), chained⟩
    · rintro ⟨own, -, chained⟩
      exact ⟨own, chained⟩
  · rw [Finset.disjoint_left]
    intro a left right
    exact other (components.eq_of_mem member member' left right)
  · obtain ⟨d, grouping, subset⟩ := components.full g member
    obtain ⟨hash, tx, -, member⟩ := mem_orderGroups_walletGroupings.mp grouping
    rcases mem_txGroupings.mp member with ⟨rfl, i, input⟩ | ⟨own, -, rfl⟩
    · exact ⟨i, subset (mem_inputGrouping.mpr ⟨⟨i, input⟩, Or.inl input⟩)⟩
    · exact ⟨own, subset (Finset.mem_singleton_self own)⟩
  · obtain ⟨d, grouping, inside⟩ := exists_grouping_iff.mpr own
    exact components.covered d grouping a inside

end UsedTogether

end Esbcoin
