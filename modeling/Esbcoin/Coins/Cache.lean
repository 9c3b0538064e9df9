import Esbcoin.Coins.FlatCoins
import Esbcoin.Lib.AssocMap
import Esbcoin.Lib.StepRun

/-!
# The cache of the coin views

Rendering of `CCoinsViewCache` and `CCoinsModifier` (`src/coins.cpp:86-207, 263-277`) on top
of `CCoinsViewDB` (`src/txdb.cpp:37-88`). A stack is the list of its caches, the top first,
over a database. Reading fills the caches on the way, so it changes the stack. A modifier is
made, used and destroyed in one operation, so `hasModifier` is false between operations.
-/

namespace Esbcoin

/-- `CCoinsCacheEntry` (`coins.h:293-303`). -/
structure CCoinsCacheEntry where
  coins : CCoins := {}
  dirty : Bool := false
  fresh : Bool := false
deriving DecidableEq, Repr

/-- `CCoinsMap` (`coins.h:305`). -/
abbrev CCoinsMap := AssocMap UInt256 CCoinsCacheEntry

/-- The data of `CCoinsViewCache` (`coins.h:403-417`). -/
structure CCoinsViewCache where
  hashBlock : UInt256 := 0
  cacheCoins : CCoinsMap := ∅

/-- `CCoinsViewDB`: the records under `'c'` and the best block under `'B'`. -/
structure CCoinsViewDB where
  db : AssocMap UInt256 CCoins := ∅
  hashBestChain : UInt256 := 0

namespace CCoinsViewDB

/-- `CCoinsViewDB::GetCoins`; `CCoins::Unserialize` ends with `Cleanup` (`coins.h:244`). -/
def getCoins (base : CCoinsViewDB) (txid : UInt256) : Option CCoins :=
  (base.db.lookup txid).map CCoins.cleanup

/-- One turn of the loop of `CCoinsViewDB::BatchWrite`, with `BatchWriteCoins`. -/
def writeEntry (txid : UInt256) (entry : CCoinsCacheEntry) (db : AssocMap UInt256 CCoins) :
    Option (AssocMap UInt256 CCoins) :=
  if entry.dirty then
    some (if entry.coins.isPruned then db.erase txid else db.insert txid entry.coins)
  else some db

/-- `CCoinsViewDB::BatchWrite` (`txdb.cpp:66-88`). -/
def batchWrite (base : CCoinsViewDB) (mapCoins : CCoinsMap) (hashBlock : UInt256) :
    Option CCoinsViewDB :=
  (mapCoins.forEach writeEntry base.db).map fun db =>
    { db, hashBestChain := if hashBlock ≠ 0 then hashBlock else base.hashBestChain }

end CCoinsViewDB

namespace CCoinsViewCache

/-- One turn of the loop of `CCoinsViewCache::BatchWrite` (`coins.cpp:171-199`); `none` is the
assertion on the child's `FRESH` flag. -/
def writeEntry (txid : UInt256) (entry : CCoinsCacheEntry) (cacheCoins : CCoinsMap) :
    Option CCoinsMap :=
  if entry.dirty then
    match cacheCoins.lookup txid with
    | none =>
      if entry.coins.isPruned then some cacheCoins
      else if entry.fresh then
        some (cacheCoins.insert txid { coins := entry.coins, dirty := true, fresh := true })
      else none
    | some us =>
      if us.fresh && entry.coins.isPruned then some (cacheCoins.erase txid)
      else some (cacheCoins.insert txid { us with coins := entry.coins, dirty := true })
  else some cacheCoins

/-- `CCoinsViewCache::BatchWrite` (`coins.cpp:168-203`). -/
def batchWrite (cache : CCoinsViewCache) (mapCoins : CCoinsMap) (hashBlockIn : UInt256) :
    Option CCoinsViewCache :=
  (mapCoins.forEach writeEntry cache.cacheCoins).map fun cacheCoins =>
    { cacheCoins, hashBlock := hashBlockIn }

/-- The destructor of `CCoinsModifier` on the entry it points to (`coins.cpp:269-277`). -/
def releaseEntry (cache : CCoinsViewCache) (txid : UInt256) (entry : CCoinsCacheEntry) :
    CCoinsViewCache :=
  let entry := { entry with coins := entry.coins.cleanup }
  if entry.fresh && entry.coins.isPruned then
    { cache with cacheCoins := cache.cacheCoins.erase txid }
  else { cache with cacheCoins := cache.cacheCoins.insert txid entry }

end CCoinsViewCache

/-- A stack of caches over a database, the top first. -/
structure CoinsStack where
  caches : List CCoinsViewCache
  base : CCoinsViewDB

namespace CoinsStack

/-- `FetchCoins` at the top cache, and `GetCoins` of the view below it
(`coins.cpp:90-117`). -/
def fetch (base : CCoinsViewDB) (txid : UInt256) :
    List CCoinsViewCache → Option CCoins × List CCoinsViewCache
  | [] => (base.getCoins txid, [])
  | cache :: below =>
    match cache.cacheCoins.lookup txid with
    | some entry => (some entry.coins, cache :: below)
    | none =>
      let (found, below) := fetch base txid below
      match found with
      | none => (none, cache :: below)
      | some coins =>
        (some coins, { cache with
          cacheCoins := cache.cacheCoins.insert txid { coins, fresh := coins.isPruned } } :: below)

/-- The entry `ModifyCoins` hands out (`coins.cpp:119-136`). -/
def modifyEntry (base : CCoinsViewDB) (txid : UInt256) (cache : CCoinsViewCache)
    (below : List CCoinsViewCache) : CCoinsCacheEntry × List CCoinsViewCache :=
  match cache.cacheCoins.lookup txid with
  | some entry => ({ entry with dirty := true }, below)
  | none =>
    match fetch base txid below with
    | (none, below) => ({ coins := CCoins.clear, dirty := true, fresh := true }, below)
    | (some coins, below) => ({ coins, dirty := true, fresh := coins.isPruned }, below)

/-- `ModifyCoins` at the top cache, an edit of the record and the modifier's destructor. -/
def modify (base : CCoinsViewDB) (txid : UInt256) (edit : CCoins → CCoins) :
    List CCoinsViewCache → List CCoinsViewCache
  | [] => []
  | cache :: below =>
    let (entry, below) := modifyEntry base txid cache below
    cache.releaseEntry txid { entry with coins := edit entry.coins } :: below

/-- `Flush` of the top cache (`coins.cpp:205-210`) into the view below it. -/
def flushTop (base : CCoinsViewDB) :
    List CCoinsViewCache → Option (List CCoinsViewCache × CCoinsViewDB)
  | [] => some ([], base)
  | [cache] =>
    (base.batchWrite cache.cacheCoins cache.hashBlock).map fun base =>
      ([{ cache with cacheCoins := ∅ }], base)
  | cache :: parent :: below =>
    (parent.batchWrite cache.cacheCoins cache.hashBlock).map fun parent =>
      ({ cache with cacheCoins := ∅ } :: parent :: below, base)

/-- `GetCoins` at a layer, counted from the top. -/
def getCoins (s : CoinsStack) (layer : Nat) (txid : UInt256) : Option CCoins × CoinsStack :=
  let (found, lower) := fetch s.base txid (s.caches.drop layer)
  (found, { s with caches := s.caches.take layer ++ lower })

/-- `AccessCoins`: the record in the cache, or `NULL`. -/
def accessCoins (s : CoinsStack) (layer : Nat) (txid : UInt256) : Option CCoins × CoinsStack :=
  s.getCoins layer txid

/-- `HaveCoins`, which looks whether there are outputs and not whether one is unspent. -/
def haveCoins (s : CoinsStack) (layer : Nat) (txid : UInt256) : Bool × CoinsStack :=
  let (found, s) := s.getCoins layer txid
  (match found with
    | some coins => !coins.vout.isEmpty
    | none => false, s)

end CoinsStack

/-- The operations on the layers of a stack; layer 0 is the top. -/
inductive CoinsOp where
  | getCoins (layer : Nat) (txid : UInt256)
  | accessCoins (layer : Nat) (txid : UInt256)
  | haveCoins (layer : Nat) (txid : UInt256)
  | modifyCoins (layer : Nat) (txid : UInt256) (edit : CCoins → CCoins)
  | flush (layer : Nat)

namespace CoinsStack

/-- One operation; `none` is the failed assertion of `BatchWrite`. -/
def apply (s : CoinsStack) : CoinsOp → Option CoinsStack
  | .getCoins layer txid => some (s.getCoins layer txid).2
  | .accessCoins layer txid => some (s.accessCoins layer txid).2
  | .haveCoins layer txid => some (s.haveCoins layer txid).2
  | .modifyCoins layer txid edit =>
    some { s with
      caches := s.caches.take layer ++ modify s.base txid edit (s.caches.drop layer) }
  | .flush layer =>
    (flushTop s.base (s.caches.drop layer)).map fun (lower, base) =>
      { caches := s.caches.take layer ++ lower, base }

/-- The step of a run: after a failed assertion there is no state. -/
def step (s : Option CoinsStack) (op : CoinsOp) : Option CoinsStack := s.bind fun s => s.apply op

/-- Flush every layer, from the top down. -/
def flushAll (s : CoinsStack) : Option CoinsStack :=
  StepRun.run step (some s) ((List.range s.caches.length).map CoinsOp.flush)

end CoinsStack

/-- What the operations do to one flat map. -/
def FlatCoins.step (view : FlatCoins) : CoinsOp → FlatCoins
  | .modifyCoins _ txid edit => view.modifyCoins txid edit
  | _ => view

end Esbcoin
