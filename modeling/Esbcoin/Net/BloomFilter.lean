import Esbcoin.Lib.Binary64
import Esbcoin.Lib.BitArray
import Esbcoin.Lib.StepRun
import Esbcoin.Script.Solver

/-!
# The bloom filter of a peer

`CBloomFilter` (`src/bloom.h`, `src/bloom.cpp`) with `MurmurHash3` (`src/hash.cpp:9-70`). A bit
index that is computed modulo zero is `none`.
-/

namespace Esbcoin

open Bytes BitArray StepRun List Option

/-- `ROTL32` (`hash.cpp:9-12`). -/
def rotl32 (x r : UInt32) : UInt32 := x <<< r ||| x >>> (32 - r)

/-- What a block of the key becomes (`hash.cpp:31-33`, `:53-55`). -/
def murmurBlock (k1 : UInt32) : UInt32 := rotl32 (k1 * 0xcc9e2d51) 15 * 0x1b873593

/-- The number of up to four bytes, the lowest first. -/
def murmurWord (bytes : List UInt8) : UInt32 :=
  UInt32.ofNat (bytes.foldr (fun byte rest => byte.toNat + 256 * rest) 0)

/-- The body and the tail of `MurmurHash3` (`hash.cpp:24-58`). -/
def murmurBody (h1 : UInt32) : List UInt8 → UInt32
  | b0 :: b1 :: b2 :: b3 :: rest =>
    murmurBody (rotl32 (h1 ^^^ murmurBlock (murmurWord [b0, b1, b2, b3])) 13 * 5 + 0xe6546b64) rest
  | [] => h1
  | tail => h1 ^^^ murmurBlock (murmurWord tail)

/-- `MurmurHash3` (`hash.cpp:14-70`), on a machine whose words are little endian. -/
def murmurHash3 (nHashSeed : UInt32) (vDataToHash : List UInt8) : UInt32 :=
  let h1 := murmurBody nHashSeed vDataToHash ^^^ UInt32.ofNat vDataToHash.length
  let h1 := (h1 ^^^ h1 >>> 16) * 0x85ebca6b
  let h1 := (h1 ^^^ h1 >>> 13) * 0xc2b2ae35
  h1 ^^^ h1 >>> 16

-- two of the values of `test/hash_tests.cpp:22-45`
example : murmurHash3 0xFBA4C795 [0] = 0xea3f0b17 ∧ murmurHash3 0 [0, 0x11, 0x22] = 0x8eb51c3d := by
  decide

/-- `MAX_BLOOM_FILTER_SIZE` (`bloom.h:17`). -/
def MAX_BLOOM_FILTER_SIZE : Nat := 36000

/-- `MAX_HASH_FUNCS` (`bloom.h:18`). -/
def MAX_HASH_FUNCS : Nat := 50

/-- `BLOOM_UPDATE_ALL` (`bloom.h:26`). -/
def BLOOM_UPDATE_ALL : UInt8 := 1

/-- `BLOOM_UPDATE_P2PUBKEY_ONLY` (`bloom.h:28`). -/
def BLOOM_UPDATE_P2PUBKEY_ONLY : UInt8 := 2

/-- `BLOOM_UPDATE_MASK` (`bloom.h:29`). -/
def BLOOM_UPDATE_MASK : UInt8 := 3

/-- `LN2` (`bloom.cpp:17`). -/
def LN2 : ℚ :=
  Binary64.nearest (6931471805599453094172321214581765680755001343602552 / 10 ^ 52)

/-- `CBloomFilter` (`bloom.h:44-54`). -/
structure CBloomFilter where
  vData : List UInt8
  isFull : Bool
  isEmpty : Bool
  nHashFuncs : UInt32
  nTweak : UInt32
  nFlags : UInt8
deriving DecidableEq, Repr

namespace CBloomFilter

/-- `CBloomFilter()` (`bloom.h:71`). -/
def empty : CBloomFilter := ⟨[], true, false, 0, 0, 0⟩

/-- `CBloomFilter(nElements, nFPRate, nTweakIn, nFlagsIn)` (`bloom.cpp:21-41`), which divides by
`nElements`. `nBits` is `-1 / LN2SQUARED * nElements * log(nFPRate)` as a whole number, whose
logarithm is the C library's. -/
def ofElements (nBits nElements nTweakIn : UInt32) (nFlagsIn : UInt8) : Option CBloomFilter :=
  if nElements = 0 then none
  else
    let size := min nBits.toNat (MAX_BLOOM_FILTER_SIZE * 8) / 8
    let funcs := Binary64.trunc (Binary64.mul (size * 8 / nElements.toNat : Nat) LN2)
    some ⟨List.replicate size 0, false, false, UInt32.ofNat (min funcs.toNat MAX_HASH_FUNCS),
      nTweakIn, nFlagsIn⟩

/-- `CBloomFilter::UpdateEmptyFull` (`bloom.cpp:176-187`). -/
def updateEmptyFull (this : CBloomFilter) : CBloomFilter :=
  { this with
    isFull := this.vData.all (· == 0xff)
    isEmpty := this.vData.all (· == 0) }

/-- `CBloomFilter::IsWithinSizeConstraints` (`bloom.cpp:113-116`). -/
def isWithinSizeConstraints (this : CBloomFilter) : Bool :=
  decide (this.vData.length ≤ MAX_BLOOM_FILTER_SIZE) &&
    decide (this.nHashFuncs.toNat ≤ MAX_HASH_FUNCS)

/-- The filter of a `filterload` message with these fields (`main.cpp:5452-5466`, `bloom.h:73-82`),
unless it is too large. -/
def filterload (vData : List UInt8) (nHashFuncs nTweak : UInt32) (nFlags : UInt8) :
    Option CBloomFilter :=
  let filter : CBloomFilter := { empty with vData, nHashFuncs, nTweak, nFlags }
  if filter.isWithinSizeConstraints then some filter.updateEmptyFull else none

/-- `CBloomFilter::Hash` (`bloom.cpp:43-47`). -/
def hash (this : CBloomFilter) (nHashNum : Nat) (vDataToHash : List UInt8) : Option Nat :=
  if this.vData.length * 8 = 0 then none
  else
    some ((murmurHash3 (UInt32.ofNat nHashNum * 0xFBA4C795 + this.nTweak) vDataToHash).toNat %
      (this.vData.length * 8))

/-- The loop of `insert` (`bloom.cpp:53-57`) over `vData`. -/
def insertFrom (this : CBloomFilter) (vKey : List UInt8) : List Nat → List UInt8 →
    Option (List UInt8)
  | [], vData => some vData
  | i :: more, vData =>
    (this.hash i vKey).bind fun nIndex =>
      this.insertFrom vKey more
        (vData.modify (nIndex >>> 3) fun byte => UInt8.ofNat (byte.toNat ||| 1 <<< (7 &&& nIndex)))

/-- `CBloomFilter::insert(const vector<unsigned char>&)` (`bloom.cpp:49-59`). -/
def insert (this : CBloomFilter) (vKey : List UInt8) : Option CBloomFilter :=
  if this.isFull then some this
  else
    (this.insertFrom vKey (List.range this.nHashFuncs.toNat) this.vData).map fun vData =>
      { this with vData, isEmpty := false }

/-- `CBloomFilter::insert(const COutPoint&)` (`bloom.cpp:61-67`). -/
def insertOutPoint (this : CBloomFilter) (outpoint : COutPoint) : Option CBloomFilter :=
  this.insert outpoint.serialize

/-- The loop of `contains` (`bloom.cpp:81-86`). -/
def containsFrom (this : CBloomFilter) (vKey : List UInt8) : List Nat → Option Bool
  | [] => some true
  | i :: more =>
    (this.hash i vKey).bind fun nIndex =>
      if (this.vData.getD (nIndex >>> 3) 0).toNat &&& 1 <<< (7 &&& nIndex) = 0 then some false
      else this.containsFrom vKey more

/-- `CBloomFilter::contains(const vector<unsigned char>&)` (`bloom.cpp:75-88`). -/
def contains (this : CBloomFilter) (vKey : List UInt8) : Option Bool :=
  if this.isFull then some true
  else if this.isEmpty then some false
  else this.containsFrom vKey (List.range this.nHashFuncs.toNat)

/-- `CBloomFilter::contains(const COutPoint&)` (`bloom.cpp:90-96`). -/
def containsOutPoint (this : CBloomFilter) (outpoint : COutPoint) : Option Bool :=
  this.contains outpoint.serialize

/-- `CBloomFilter::contains(const uint256&)` (`bloom.cpp:98-102`). -/
def containsHash (this : CBloomFilter) (hash : UInt256) : Option Bool :=
  this.contains (littleEndian 32 hash.toNat)

/-- The loop over the data elements of a script (`bloom.cpp:136-141`, `:165-171`): does the filter
contain one? -/
def scan (this : CBloomFilter) : Nat → CScript → Option Bool
  | 0, _ => some false
  | fuel + 1, pc =>
    match pc.readOp with
    | none => some false
    | some (_, data, rest) =>
      if data.isEmpty then this.scan fuel rest
      else
        (this.contains data).bind fun found =>
          if found then some true else this.scan fuel rest

/-- Is the outpoint of a matched output inserted (`bloom.cpp:143-149`)? -/
def updates (nFlags : UInt8) (scriptPubKey : CScript) : Bool :=
  if nFlags &&& BLOOM_UPDATE_MASK = BLOOM_UPDATE_ALL then true
  else if nFlags &&& BLOOM_UPDATE_MASK = BLOOM_UPDATE_P2PUBKEY_ONLY then
    match Solver.solver scriptPubKey [] with
    | (true, .pubkey, _) | (true, .multisig, _) => true
    | _ => false
  else false

/-- The loop over the outputs (`bloom.cpp:129-153`), from output `i` on: the filter, and the outputs
that matched. -/
def updateOutputs (hash : UInt256) : Nat → List CTxOut → CBloomFilter →
    Option (CBloomFilter × List (COutPoint × CScript))
  | _, [], this => some (this, [])
  | i, txout :: vout, this =>
    (this.scan txout.scriptPubKey.length txout.scriptPubKey).bind fun found =>
      if found then
        let outpoint : COutPoint := ⟨hash, UInt32.ofNat i⟩
        (if updates this.nFlags txout.scriptPubKey then this.insertOutPoint outpoint
          else some this).bind fun this =>
        (updateOutputs hash (i + 1) vout this).map fun (this, matched) =>
          (this, (outpoint, txout.scriptPubKey) :: matched)
      else updateOutputs hash (i + 1) vout this

/-- The loop over the inputs (`bloom.cpp:158-172`). -/
def matchInputs (this : CBloomFilter) : List CTxIn → Option Bool
  | [] => some false
  | txin :: vin =>
    (this.containsOutPoint txin.prevout).bind fun found =>
      if found then some true
      else
        (this.scan txin.scriptSig.length txin.scriptSig).bind fun found =>
          if found then some true else this.matchInputs vin

/-- `CBloomFilter::IsRelevantAndUpdate` (`bloom.cpp:118-174`): what it returns, the filter, and the
outputs that matched, with their scripts. -/
def isRelevantAndUpdate (this : CBloomFilter) (tx : CTransaction) :
    Option (Bool × CBloomFilter × List (COutPoint × CScript)) :=
  if this.isFull then some (true, this, [])
  else if this.isEmpty then some (false, this, [])
  else
    (this.containsHash tx.getHash).bind fun fFound =>
    (updateOutputs tx.getHash 0 tx.vout this).bind fun (this, matched) =>
      if fFound || !matched.isEmpty then some (true, this, matched)
      else (this.matchInputs tx.vin).map fun found => (found, this, matched)

/-- A filter that is built by a constructor or accepted by `filterload`. -/
inductive Built : CBloomFilter → Prop
  | empty : Built empty
  | ofElements {nBits nElements nTweakIn : UInt32} {nFlagsIn : UInt8} {filter : CBloomFilter} :
      ofElements nBits nElements nTweakIn nFlagsIn = some filter → Built filter
  | filterload {vData : List UInt8} {nHashFuncs nTweak : UInt32} {nFlags : UInt8}
      {filter : CBloomFilter} :
      filterload vData nHashFuncs nTweak nFlags = some filter → Built filter

/-- A filter with what it was given: the elements that were inserted, directly or as the outpoint of
a matched output, and the outputs that matched under `BLOOM_UPDATE_ALL`. -/
structure Watch where
  filter : CBloomFilter
  inserted : List (List UInt8)
  matched : List COutPoint

/-- What is done with a filter. The other overloads of `insert` and `contains` are these on the bytes
of an outpoint or a hash. -/
inductive Call where
  | insert (vKey : List UInt8)
  | isRelevantAndUpdate (tx : CTransaction)
  | updateEmptyFull
  | contains (vKey : List UInt8)

/-- A call, and what the filter was given by it. -/
def step (watch : Watch) : Call → Option Watch
  | .insert vKey =>
    (watch.filter.insert vKey).map fun filter =>
      { watch with filter, inserted := vKey :: watch.inserted }
  | .isRelevantAndUpdate tx =>
    (watch.filter.isRelevantAndUpdate tx).map fun (_, filter, matched) =>
      { filter
        inserted := (matched.filter fun output => updates watch.filter.nFlags output.2).map
          (fun output => output.1.serialize) ++ watch.inserted
        matched := (if watch.filter.nFlags &&& BLOOM_UPDATE_MASK = BLOOM_UPDATE_ALL then
          matched.map Prod.fst else []) ++ watch.matched }
  | .updateEmptyFull => some { watch with filter := watch.filter.updateEmptyFull }
  | .contains vKey => (watch.filter.contains vKey).map fun _ => watch

/-- Nothing the filter was given is lost: every element is reported, and who spends an output that
matched is relevant. -/
def Keeps (watch : Watch) : Prop :=
  (∀ vKey ∈ watch.inserted, watch.filter.contains vKey = some true) ∧
    ∀ outpoint ∈ watch.matched, ∀ tx : CTransaction, outpoint ∈ tx.prevouts →
      ∃ filter matched, watch.filter.isRelevantAndUpdate tx = some (true, filter, matched)

/-- A filter without hash functions, whose bits are all zero and stay so. -/
def Idle (this : CBloomFilter) : Prop :=
  this.nHashFuncs = 0 ∧ this.vData ≠ [] ∧ ∀ byte ∈ this.vData, byte = 0

/-- `UpdateEmptyFull` is not called on such a filter behind the first element. -/
def Fair (watch : Watch) (call : Call) : Prop :=
  call = .updateEmptyFull → watch.filter.Idle → watch.inserted = []

/-! ## The bits of a key -/

/-- The bit of a key for hash function `i`. -/
def mark (this : CBloomFilter) (vKey : List UInt8) (i : Nat) : Nat :=
  (murmurHash3 (UInt32.ofNat i * 0xFBA4C795 + this.nTweak) vKey).toNat % (this.vData.length * 8)

/-- The bits of a key. -/
def marks (this : CBloomFilter) (vKey : List UInt8) : List Nat :=
  (List.range this.nHashFuncs.toNat).map (this.mark vKey)

/-- A loop over the hash functions finds bits to compute an index in. -/
def Indexed (this : CBloomFilter) : Prop :=
  this.isFull = true ∨ this.nHashFuncs = 0 ∨ this.vData ≠ []

/-- The bits of a key are set, as far as bits are looked at. -/
def Has (this : CBloomFilter) (vKey : List UInt8) : Prop :=
  this.isFull = true ∨ allSet this.vData (this.marks vKey) = true

/-- The filter is not taken for an empty one. -/
def Awake (this : CBloomFilter) : Prop := this.isFull = true ∨ this.isEmpty = false

variable {this later : CBloomFilter} {vKey : List UInt8}

theorem marks_lt (bytes : this.vData ≠ []) : ∀ n ∈ this.marks vKey, n < this.vData.length * 8 := by
  intro n mem
  obtain ⟨i, -, rfl⟩ := List.mem_map.mp mem
  have positive : 0 < this.vData.length := length_pos_iff.mpr bytes
  exact Nat.mod_lt _ (by omega)

theorem hash_eq (bytes : this.vData ≠ []) (i : Nat) (vKey : List UInt8) :
    this.hash i vKey = some (this.mark vKey i) := by
  have positive : 0 < this.vData.length := length_pos_iff.mpr bytes
  exact if_neg (by omega)

theorem shiftRight_three (n : Nat) : n >>> 3 = n / 8 := Nat.shiftRight_eq_div_pow n 3

theorem seven_and (n : Nat) : 7 &&& n = n % 8 := by
  rw [Nat.and_comm]
  exact Nat.and_two_pow_sub_one_eq_mod n 3

theorem insertFrom_eq (bytes : this.vData ≠ []) (vKey : List UInt8) (is : List Nat)
    (vData : List UInt8) :
    this.insertFrom vKey is vData = some (setBits vData (is.map (this.mark vKey))) := by
  induction is generalizing vData with
  | nil => rfl
  | cons i is ih =>
    rw [insertFrom, hash_eq bytes, bind_some, ih, shiftRight_three, seven_and]
    rfl

theorem containsFrom_eq (bytes : this.vData ≠ []) (vKey : List UInt8) (is : List Nat) :
    this.containsFrom vKey is = some (allSet this.vData (is.map (this.mark vKey))) := by
  induction is with
  | nil => rfl
  | cons i is ih =>
    rw [containsFrom, hash_eq bytes, bind_some, ih, shiftRight_three, seven_and,
      map_cons, allSet_cons]
    split
    · rename_i clear
      rw [(bit_eq_false_iff _ _).mpr clear, Bool.false_and]
    · rename_i set
      rw [Bool.eq_true_of_not_eq_false fun clear => set ((bit_eq_false_iff _ _).mp clear),
        Bool.true_and]

/-- `insert` sets the bits of the key, unless the filter is full. -/
theorem insert_eq (indexed : this.Indexed) (vKey : List UInt8) :
    this.insert vKey = some (if this.isFull then this
        else { this with vData := setBits this.vData (this.marks vKey), isEmpty := false }) := by
  unfold insert
  split
  · rfl
  rename_i notFull
  rcases indexed with full | noFuncs | bytes
  · exact absurd full notFull
  · rw [marks, noFuncs]
    rfl
  · rw [insertFrom_eq bytes]
    rfl

/-- `contains` looks at the flags and then at the bits. -/
theorem contains_eq (indexed : this.Indexed) (vKey : List UInt8) :
    this.contains vKey =
      some (this.isFull || !this.isEmpty && allSet this.vData (this.marks vKey)) := by
  unfold contains
  split
  · rename_i full
    rw [full, Bool.true_or]
  rename_i notFull
  rw [Bool.eq_false_iff.mpr notFull, Bool.false_or]
  split
  · rename_i isEmpty
    rw [isEmpty]
    rfl
  rename_i notEmpty
  rw [Bool.eq_false_iff.mpr notEmpty, Bool.not_false, Bool.true_and]
  rcases indexed with full | noFuncs | bytes
  · exact absurd full notFull
  · rw [marks, noFuncs]
    rfl
  · exact containsFrom_eq bytes vKey _

/-- `contains` reports the elements the filter has, unless it is taken for an empty one. -/
theorem contains_iff (indexed : this.Indexed) :
    this.contains vKey = some true ↔ this.Has vKey ∧ this.Awake := by
  rw [contains_eq indexed, Has, Awake, some_inj]
  cases this.isFull <;> cases this.isEmpty <;> simp

/-! ## What a call changes -/

/-- The filter behind some insertions. -/
structure Extends (this later : CBloomFilter) : Prop where
  length : later.vData.length = this.vData.length
  nHashFuncs : later.nHashFuncs = this.nHashFuncs
  nTweak : later.nTweak = this.nTweak
  nFlags : later.nFlags = this.nFlags
  isFull : later.isFull = this.isFull
  grows : Grows this.vData later.vData
  awake : this.isEmpty = false → later.isEmpty = false
  full : this.isFull = true → later = this

theorem Extends.refl (this : CBloomFilter) : Extends this this :=
  ⟨rfl, rfl, rfl, rfl, rfl, .refl _, id, fun _ => rfl⟩

theorem Extends.trans {next : CBloomFilter} (first : Extends this next)
    (second : Extends next later) : Extends this later where
  length := second.length.trans first.length
  nHashFuncs := second.nHashFuncs.trans first.nHashFuncs
  nTweak := second.nTweak.trans first.nTweak
  nFlags := second.nFlags.trans first.nFlags
  isFull := second.isFull.trans first.isFull
  grows := first.grows.trans second.grows
  awake := fun notEmpty => second.awake (first.awake notEmpty)
  full := fun isFull =>
    (second.full (first.isFull.trans isFull)).trans (first.full isFull)

section

variable (extends' : Extends this later)
include extends'

theorem Extends.marks (vKey : List UInt8) :
    later.marks vKey = this.marks vKey := by
  unfold CBloomFilter.marks
  rw [extends'.nHashFuncs]
  refine map_congr_left fun i _ => ?_
  rw [mark, mark, extends'.nTweak, extends'.length]

theorem Extends.indexed (indexed : this.Indexed) :
    later.Indexed := by
  rcases indexed with full | noFuncs | bytes
  · exact .inl (extends'.isFull.trans full)
  · exact .inr (.inl (extends'.nHashFuncs.trans noFuncs))
  refine .inr (.inr ?_)
  rw [← length_pos_iff] at bytes ⊢
  rw [extends'.length]
  exact bytes

theorem Extends.has (has : this.Has vKey) : later.Has vKey := by
  rcases has with full | set
  · exact .inl (extends'.isFull.trans full)
  · refine .inr ?_
    rw [extends'.marks]
    exact extends'.grows.allSet set

theorem Extends.awake' (awake : this.Awake) : later.Awake := by
  rcases awake with full | notEmpty
  · exact .inl (extends'.isFull.trans full)
  · exact .inr (extends'.awake notEmpty)

end

section

variable (indexed : this.Indexed)
include indexed

/-- What `insert` leaves: the key is had, and the filter is not taken for an empty one. -/
theorem insert_spec (vKey : List UInt8) :
    ∃ later, this.insert vKey = some later ∧ Extends this later ∧ later.Has vKey ∧ later.Awake := by
  rw [insert_eq indexed]
  by_cases full : this.isFull = true
  · rw [if_pos full]
    exact ⟨this, rfl, .refl this, .inl full, .inl full⟩
  rw [if_neg full]
  have extended : Extends this
      { this with vData := setBits this.vData (this.marks vKey), isEmpty := false } :=
    ⟨length_setBits _ _, rfl, rfl, rfl, rfl, grows_setBits _ _, fun _ => rfl,
      fun isFull => absurd isFull full⟩
  refine ⟨_, rfl, extended, .inr ?_, .inr rfl⟩
  rw [extended.marks]
  rcases indexed with isFull | noFuncs | bytes
  · exact absurd isFull full
  · rw [marks, noFuncs]
    rfl
  · exact allSet_setBits (marks_lt bytes)

theorem scan_total (fuel : Nat) (pc : CScript) :
    ∃ found, this.scan fuel pc = some found := by
  induction fuel generalizing pc with
  | zero => exact ⟨false, rfl⟩
  | succ fuel ih =>
    rw [scan]
    split
    · exact ⟨false, rfl⟩
    split
    · exact ih _
    rw [contains_eq indexed, bind_some]
    split
    · exact ⟨true, rfl⟩
    · exact ih _

/-- What the loop over the outputs leaves: the outpoints of the matched outputs are had, where they
are inserted. -/
theorem updateOutputs_spec (hash : UInt256) (i : Nat) (vout : List CTxOut) :
    ∃ later matched, updateOutputs hash i vout this = some (later, matched) ∧
      Extends this later ∧
      ∀ output ∈ matched, updates this.nFlags output.2 = true → later.Has output.1.serialize := by
  induction vout generalizing this i with
  | nil => exact ⟨this, [], rfl, .refl this, by simp⟩
  | cons txout vout ih =>
    obtain ⟨found, scanned⟩ := scan_total indexed txout.scriptPubKey.length txout.scriptPubKey
    rw [updateOutputs, scanned, bind_some]
    cases found with
    | false =>
      exact ih indexed (i + 1)
    | true =>
      -- the filter behind the insertion, where there is one
      have inserted : ∃ next,
          (if updates this.nFlags txout.scriptPubKey then
            this.insertOutPoint ⟨hash, UInt32.ofNat i⟩ else some this) = some next ∧
          Extends this next ∧ (updates this.nFlags txout.scriptPubKey = true →
            next.Has (COutPoint.serialize ⟨hash, UInt32.ofNat i⟩)) := by
        split
        · obtain ⟨next, done, extends', has, -⟩ :=
            insert_spec indexed (COutPoint.serialize ⟨hash, UInt32.ofNat i⟩)
          exact ⟨next, done, extends', fun _ => has⟩
        · rename_i keeps
          exact ⟨this, rfl, .refl this, fun inserts => absurd inserts keeps⟩
      obtain ⟨next, done, extends', has⟩ := inserted
      obtain ⟨later, matched, looped, extends'', others⟩ := ih (extends'.indexed indexed) (i + 1)
      simp only [done, bind_some, looped, map_some]
      refine ⟨later, _, rfl, extends'.trans extends'', ?_⟩
      refine forall_mem_cons.mpr ⟨fun inserts => extends''.has (has inserts), ?_⟩
      intro output mem inserts
      refine others output mem ?_
      rw [extends'.nFlags]
      exact inserts

theorem matchInputs_total (vin : List CTxIn) :
    ∃ found, this.matchInputs vin = some found := by
  induction vin with
  | nil => exact ⟨false, rfl⟩
  | cons txin vin ih =>
    rw [matchInputs, containsOutPoint, contains_eq indexed, bind_some]
    split
    · exact ⟨true, rfl⟩
    obtain ⟨found, scanned⟩ := scan_total indexed txin.scriptSig.length txin.scriptSig
    rw [scanned, bind_some]
    split
    · exact ⟨true, rfl⟩
    · exact ih

/-- An input whose outpoint is had matches. -/
theorem matchInputs_of_has (awake : this.Awake) {vin : List CTxIn} {outpoint : COutPoint}
    (spent : outpoint ∈ vin.map CTxIn.prevout) (has : this.Has outpoint.serialize) :
    this.matchInputs vin = some true := by
  induction vin with
  | nil => simp at spent
  | cons txin vin ih =>
    rw [matchInputs]
    rcases mem_cons.mp spent with rfl | spent
    · rw [containsOutPoint, (contains_iff indexed).mpr ⟨has, awake⟩, bind_some, if_pos rfl]
    rw [containsOutPoint, contains_eq indexed, bind_some]
    split
    · rfl
    obtain ⟨found, scanned⟩ := scan_total indexed txin.scriptSig.length txin.scriptSig
    rw [scanned, bind_some]
    split
    · rfl
    · exact ih spent

/-- What `IsRelevantAndUpdate` leaves, and that it sees who spends an outpoint that is had. -/
theorem isRelevantAndUpdate_spec (tx : CTransaction) :
    ∃ found later matched, this.isRelevantAndUpdate tx = some (found, later, matched) ∧
      Extends this later ∧
      (∀ output ∈ matched, updates this.nFlags output.2 = true →
        later.Has output.1.serialize ∧ this.Awake) ∧
      (this.Awake → ∀ outpoint ∈ tx.prevouts, this.Has outpoint.serialize → found = true) := by
  unfold isRelevantAndUpdate
  split
  · exact ⟨true, this, [], rfl, .refl this, by simp, fun _ _ _ _ => rfl⟩
  rename_i notFull
  split
  · rename_i isEmpty
    refine ⟨false, this, [], rfl, .refl this, by simp, ?_⟩
    rintro (full | notEmpty)
    · exact absurd full notFull
    · rw [isEmpty] at notEmpty
      cases notEmpty
  rename_i notEmpty
  have awake : this.Awake := .inr (Bool.eq_false_iff.mpr notEmpty)
  obtain ⟨later, matched, looped, extends', has⟩ :=
    updateOutputs_spec indexed tx.getHash 0 tx.vout
  have inserted : ∀ output ∈ matched, updates this.nFlags output.2 = true →
      later.Has output.1.serialize ∧ this.Awake :=
    fun output mem inserts => ⟨has output mem inserts, awake⟩
  rw [containsHash, contains_eq indexed, bind_some, looped, bind_some]
  simp only
  split
  · exact ⟨true, later, matched, rfl, extends', inserted, fun _ _ _ _ => rfl⟩
  obtain ⟨found, inputs⟩ := matchInputs_total (extends'.indexed indexed) tx.vin
  rw [inputs]
  refine ⟨found, later, matched, rfl, extends', inserted, ?_⟩
  intro _ outpoint spent hasOutpoint
  have seen := matchInputs_of_has (extends'.indexed indexed) (extends'.awake' awake) spent
    (extends'.has hasOutpoint)
  rw [inputs] at seen
  exact Option.some.inj seen

end

/-! ## Runs -/

/-- What holds of a filter and of what it was given, also where that is lost. -/
structure Watch.Sound (watch : Watch) : Prop where
  indexed : watch.filter.Indexed
  full : watch.filter.isFull = true → ∀ byte ∈ watch.filter.vData, byte = 0xff
  has : ∀ vKey ∈ watch.inserted, watch.filter.Has vKey
  matched : ∀ outpoint ∈ watch.matched, outpoint.serialize ∈ watch.inserted

/-- A filter to which nothing was given yet. -/
def Watch.start (filter : CBloomFilter) : Watch := ⟨filter, [], []⟩

theorem updateEmptyFull_full :
    this.updateEmptyFull.isFull = true → ∀ byte ∈ this.updateEmptyFull.vData, byte = 0xff := by
  intro full byte mem
  exact eq_of_beq (List.all_eq_true.mp full byte mem)

/-- An array without bytes is full. -/
theorem updateEmptyFull_indexed (this : CBloomFilter) : this.updateEmptyFull.Indexed := by
  by_cases bytes : this.vData = []
  · exact .inl (show this.vData.all _ = true by rw [bytes]; rfl)
  · exact .inr (.inr bytes)

/-- `UpdateEmptyFull` leaves the bits, and a full filter full. -/
theorem Has.updateEmptyFull (has : this.Has vKey)
    (full : this.isFull = true → ∀ byte ∈ this.vData, byte = 0xff) :
    this.updateEmptyFull.Has vKey := by
  rcases has with isFull | set
  · refine .inl (List.all_eq_true.mpr fun byte mem => ?_)
    rw [full isFull byte mem]
    rfl
  · exact .inr set

/-- A filter that is built has something to index, and is full only where its bytes are. -/
theorem Built.sound {filter : CBloomFilter} (built : Built filter) : (Watch.start filter).Sound := by
  suffices filter.Indexed ∧ (filter.isFull = true → ∀ byte ∈ filter.vData, byte = 0xff) from
    ⟨this.1, this.2, by simp [Watch.start], by simp [Watch.start]⟩
  cases built with
  | empty => exact ⟨.inl rfl, fun _ _ mem => absurd mem not_mem_nil⟩
  | @ofElements nBits nElements _ _ _ made =>
    unfold CBloomFilter.ofElements at made
    split at made
    · cases made
    cases made
    refine ⟨.inr ?_, fun isFull => by cases isFull⟩
    by_cases none : min nBits.toNat (MAX_BLOOM_FILTER_SIZE * 8) / 8 = 0
    · -- without bytes there is no hash function either
      refine .inl ?_
      simp only [none, Nat.zero_div, Nat.cast_zero, Binary64.mul, zero_mul, Binary64.nearest_zero]
      rfl
    · refine .inr ?_
      rw [← length_pos_iff, length_replicate]
      omega
  | filterload loaded =>
    unfold CBloomFilter.filterload at loaded
    simp only at loaded
    split at loaded
    · cases loaded
      exact ⟨updateEmptyFull_indexed _, updateEmptyFull_full⟩
    · cases loaded

/-- No call computes an index modulo zero, and what holds of the filter stays. -/
theorem Watch.Sound.step {watch : Watch} (sound : watch.Sound) (call : Call) :
    ∃ next, CBloomFilter.step watch call = some next ∧ next.Sound := by
  cases call with
  | insert vKey =>
    obtain ⟨later, done, extends', has, -⟩ := insert_spec sound.indexed vKey
    refine ⟨{ watch with filter := later, inserted := vKey :: watch.inserted }, ?_, ?_⟩
    · simp only [CBloomFilter.step, done, map_some]
    refine ⟨extends'.indexed sound.indexed, ?_, ?_, ?_⟩
    · intro isFull
      rw [extends'.full (extends'.isFull.symm.trans isFull)]
      exact sound.full (extends'.isFull.symm.trans isFull)
    · exact forall_mem_cons.mpr ⟨has, fun key mem => extends'.has (sound.has key mem)⟩
    · exact fun outpoint mem => mem_cons_of_mem _ (sound.matched outpoint mem)
  | isRelevantAndUpdate tx =>
    obtain ⟨found, later, matched, done, extends', has, -⟩ :=
      isRelevantAndUpdate_spec sound.indexed tx
    refine ⟨_, by simp only [CBloomFilter.step, done, map_some]; rfl, ?_⟩
    refine ⟨extends'.indexed sound.indexed, ?_, ?_, ?_⟩
    · intro isFull
      rw [extends'.full (extends'.isFull.symm.trans isFull)]
      exact sound.full (extends'.isFull.symm.trans isFull)
    · intro key mem
      rcases mem_append.mp mem with new | old
      · obtain ⟨output, inside, rfl⟩ := List.mem_map.mp new
        obtain ⟨inside, inserts⟩ := mem_filter.mp inside
        exact (has output inside inserts).1
      · exact extends'.has (sound.has key old)
    intro outpoint mem
    rcases mem_append.mp mem with new | old
    · refine mem_append_left _ ?_
      split at new
      · rename_i all
        obtain ⟨output, inside, rfl⟩ := List.mem_map.mp new
        refine List.mem_map.mpr ⟨output, mem_filter.mpr ⟨inside, ?_⟩, rfl⟩
        rw [updates, if_pos all]
      · cases new
    · exact mem_append_right _ (sound.matched outpoint old)
  | updateEmptyFull =>
    exact ⟨_, rfl, updateEmptyFull_indexed _, updateEmptyFull_full,
      fun key mem => (sound.has key mem).updateEmptyFull sound.full, sound.matched⟩
  | contains vKey =>
    refine ⟨watch, ?_, sound⟩
    simp only [CBloomFilter.step, contains_eq sound.indexed, map_some]

/-- Nothing is lost exactly where a filter that was given something is not taken for an empty one. -/
theorem Watch.Sound.keeps_iff {watch : Watch} (sound : watch.Sound) :
    Keeps watch ↔ (watch.inserted ≠ [] → watch.filter.Awake) := by
  constructor
  · rintro ⟨kept, -⟩ some
    obtain ⟨vKey, mem⟩ := exists_mem_of_ne_nil _ some
    exact ((contains_iff sound.indexed).mp (kept vKey mem)).2
  intro awake
  constructor
  · intro vKey mem
    exact (contains_iff sound.indexed).mpr
      ⟨sound.has vKey mem, awake (ne_nil_of_mem mem)⟩
  intro outpoint mem tx spent
  have inserted := sound.matched outpoint mem
  obtain ⟨found, later, matched, done, -, -, seen⟩ :=
    isRelevantAndUpdate_spec sound.indexed tx
  refine ⟨later, matched, ?_⟩
  rw [done, seen (awake (ne_nil_of_mem inserted)) outpoint spent (sound.has _ inserted)]

/-- `UpdateEmptyFull` takes a filter that was given something for an empty one exactly where it has
no hash function and no bit. -/
theorem updateEmptyFull_awake_iff (has : this.Has vKey)
    (full : this.isFull = true → ∀ byte ∈ this.vData, byte = 0xff) :
    this.updateEmptyFull.Awake ↔ ¬ this.Idle := by
  constructor
  · rintro awake ⟨-, bytes, zero⟩
    obtain ⟨byte, mem⟩ := exists_mem_of_ne_nil _ bytes
    rcases awake with isFull | notEmpty
    · have ones := updateEmptyFull_full isFull byte mem
      rw [zero byte mem] at ones
      cases ones
    have empty : this.vData.all (· == 0) = true :=
      List.all_eq_true.mpr fun byte mem => beq_iff_eq.mpr (zero byte mem)
    rw [show this.updateEmptyFull.isEmpty = true from empty] at notEmpty
    cases notEmpty
  intro busy
  by_cases bytes : this.vData = []
  · exact .inl (show this.vData.all _ = true by rw [bytes]; rfl)
  refine .inr (Bool.eq_false_iff.mpr fun empty => ?_)
  have zero : ∀ byte ∈ this.vData, byte = 0 :=
    fun byte mem => eq_of_beq (List.all_eq_true.mp empty byte mem)
  refine busy ⟨?_, bytes, zero⟩
  rcases has with isFull | set
  · obtain ⟨byte, mem⟩ := exists_mem_of_ne_nil _ bytes
    have ones := full isFull byte mem
    rw [zero byte mem] at ones
    cases ones
  -- a hash function would have set a bit
  by_contra funcs
  have positive : 0 < this.nHashFuncs.toNat := by
    refine Nat.pos_of_ne_zero fun none => funcs ?_
    exact UInt32.toNat_inj.mp none
  have first : this.mark vKey 0 ∈ this.marks vKey :=
    List.mem_map.mpr ⟨0, mem_range.mpr positive, rfl⟩
  obtain ⟨byte, mem, nonzero⟩ := exists_ne_zero_of_bit (allSet_iff.mp set _ first)
  exact nonzero (zero byte mem)

theorem Watch.Sound.keeps_step {watch next : Watch} (sound : watch.Sound) (keeps : Keeps watch)
    {call : Call} (done : CBloomFilter.step watch call = some next) :
    Keeps next ↔ Fair watch call := by
  obtain ⟨next', done', sound'⟩ := sound.step call
  rw [done] at done'
  cases done'
  rw [sound'.keeps_iff]
  rw [sound.keeps_iff] at keeps
  cases call with
  | insert vKey =>
    refine iff_of_true (fun _ => ?_) (fun other => by cases other)
    obtain ⟨later, inserted, -, -, awake⟩ := insert_spec sound.indexed vKey
    simp only [CBloomFilter.step, inserted, map_some] at done
    cases done
    exact awake
  | isRelevantAndUpdate tx =>
    refine iff_of_true ?_ (fun other => by cases other)
    obtain ⟨found, later, matched, updated, extends', has, -⟩ :=
      isRelevantAndUpdate_spec sound.indexed tx
    simp only [CBloomFilter.step, updated, map_some] at done
    cases done
    intro some
    refine extends'.awake' ?_
    obtain ⟨key, mem⟩ := exists_mem_of_ne_nil _ some
    rcases mem_append.mp mem with new | old
    · obtain ⟨output, inside, -⟩ := List.mem_map.mp new
      obtain ⟨inside, inserts⟩ := mem_filter.mp inside
      exact (has output inside inserts).2
    · exact keeps (ne_nil_of_mem old)
  | contains vKey =>
    refine iff_of_true ?_ (fun other => by cases other)
    simp only [CBloomFilter.step, contains_eq sound.indexed, map_some] at done
    cases done
    exact keeps
  | updateEmptyFull =>
    cases done
    by_cases none : watch.inserted = []
    · exact iff_of_true (fun some => absurd none some) fun _ _ => none
    obtain ⟨vKey, mem⟩ := exists_mem_of_ne_nil _ none
    rw [updateEmptyFull_awake_iff (sound.has vKey mem) sound.full]
    constructor
    · exact fun busy _ idle => absurd idle (busy none)
    · exact fun fair _ idle => none (fair rfl idle)

/-- A filter that is built never computes an index modulo zero, and keeps what it is given exactly
in the runs whose calls are all fair. -/
theorem run_keeps {filter : CBloomFilter} (built : Built filter) (calls : List Call) :
    (∃ watch, run (orFail step) (some (Watch.start filter)) calls = some watch) ∧
    ((∀ part, part <+: calls → ∀ watch,
        run (orFail step) (some (Watch.start filter)) part = some watch → Keeps watch) ↔
      AllSteps (orFail step) (fun state call => ∀ watch, state = some watch → Fair watch call)
        (some (Watch.start filter)) calls) := by
  have invariant : ∀ (state : Option Watch) (call : Call),
      (∃ watch, state = some watch ∧ watch.Sound) →
      ∃ watch, orFail step state call = some watch ∧ watch.Sound := by
    rintro _ call ⟨watch, rfl, sound⟩
    exact sound.step call
  have sound := built.sound
  constructor
  · obtain ⟨watch, reached, -⟩ := run_invariant (fun state call => invariant state call)
      (⟨_, rfl, sound⟩ : ∃ watch, some (Watch.start filter) = some watch ∧ watch.Sound) calls
    exact ⟨watch, reached⟩
  refine forall_prefix_iff_allSteps
    (K := fun state => ∀ watch, state = some watch → Keeps watch) invariant ?_
    ⟨_, rfl, sound⟩ ?_
  · rintro _ call ⟨watch, rfl, sound⟩ keeps
    obtain ⟨next, done, -⟩ := sound.step call
    have iff := sound.keeps_step (keeps watch rfl) done
    constructor
    · rintro kept _ ⟨⟩
      exact iff.mp (kept next done)
    intro fair later reached
    rw [show orFail step (some watch) call = step watch call from rfl, done] at reached
    cases reached
    exact iff.mpr (fair watch rfl)
  · rintro _ ⟨⟩
    exact sound.keeps_iff.mpr fun some => absurd rfl some

/-- A filter of a `filterload` message with one hash function. -/
def sampleFilter : CBloomFilter := ⟨[0, 0], false, true, 1, 0, 0⟩

/-- It keeps an element behind `UpdateEmptyFull`. -/
theorem run_keeps_sample : ∃ watch,
    run (orFail step) (some (Watch.start sampleFilter)) [.insert [1], .updateEmptyFull] =
      some watch ∧ Keeps watch := by
  have built : Built sampleFilter :=
    .filterload (show filterload [0, 0] 1 0 0 = some sampleFilter from rfl)
  obtain ⟨⟨watch, reached⟩, iff⟩ := run_keeps built [.insert [1], .updateEmptyFull]
  refine ⟨watch, reached, iff.mpr ?_ _ (prefix_refl _) watch reached⟩
  refine ⟨?_, ?_, trivial⟩
  · intro _ _ other
    cases other
  · intro _ inserted _ idle
    cases inserted
    exact absurd idle.1 (by decide)

/-- A filter without hash functions reports an element that was inserted as absent behind
`UpdateEmptyFull`. -/
theorem updateEmptyFull_loses : ∃ filter watch,
    filterload [0] 0 0 0 = some filter ∧
    run (orFail step) (some (Watch.start filter)) [.insert [1], .updateEmptyFull] = some watch ∧
    [1] ∈ watch.inserted ∧ watch.filter.contains [1] = some false :=
  ⟨_, _, rfl, rfl, by decide, by decide⟩

end CBloomFilter

end Esbcoin
