import Esbcoin.Lib.AssocMap
import Esbcoin.Lib.StepRun
import Esbcoin.Primitives
import Mathlib.Data.List.Count

/-!
# The transactions of the wallet and what they spend

Rendering of `CWallet::AddToWallet`, `CWallet::EraseFromWallet`, `CWallet::AddToSpends` and
`CWallet::SyncMetaData` (`src/wallet.cpp:370-432, 635-743, 782-792`): the map `mapWallet` and the
multimap `mapTxSpends` from an outpoint to the transactions of the wallet that spend it. An entry
is recorded under its outpoints when it comes in; nothing is taken out of `mapTxSpends` again.

The wallet file, the caches of an entry and the notifications are left out.
-/

namespace Esbcoin

open StepRun AssocMap
open List

/-- The fields of `CWalletTx` (`wallet.h:706-805`) and `CMerkleTx` that are read or written here,
with the values of `Init`. -/
structure CWalletTx where
  tx : CTransaction := .empty
  hashBlock : UInt256 := 0
  vMerkleBranch : List UInt256 := []
  nIndex : Int := -1
  mapValue : List (String × String) := []
  vOrderForm : List (String × String) := []
  nTimeReceived : UInt32 := 0
  nTimeSmart : UInt32 := 0
  fFromMe : Bool := false
  strFromAccount : String := ""
  nOrderPos : Int := -1
deriving DecidableEq, Repr

/-- The wallet. The pairs of `mapTxSpends` stand in the order in which they were inserted, which
is also the order of those with equal keys. -/
structure CWallet where
  fFileBacked : Bool
  mapWallet : AssocMap UInt256 CWalletTx
  mapTxSpends : List (COutPoint × UInt256)
  nOrderPosNext : Int

/-- What an `AddToWallet` reads besides its arguments: `GetAdjustedTime`, the times of the blocks
of `mapBlockIndex`, and if the wallet file takes the entry. -/
structure WalletEnv where
  now : Int
  blockTimes : UInt256 → Option UInt32
  writeToDisk : Bool

/-- The outpoints an entry is recorded under; a coinbase does not spend anything. -/
def CTransaction.spends (tx : CTransaction) : List COutPoint :=
  if tx.isCoinBase then [] else tx.prevouts

namespace CWalletTx

/-- What `SyncMetaData` copies to another spender. -/
def copyMetaData (copyFrom copyTo : CWalletTx) : CWalletTx :=
  { copyTo with
    mapValue := copyFrom.mapValue
    vOrderForm := copyFrom.vOrderForm
    nTimeSmart := copyFrom.nTimeSmart
    fFromMe := copyFrom.fFromMe
    strFromAccount := copyFrom.strFromAccount }

/-- The merge of `AddToWallet` into an entry that is there, and `fUpdated`. -/
def merge (wtx wtxIn : CWalletTx) : CWalletTx × Bool :=
  let block := decide (wtxIn.hashBlock ≠ 0 ∧ wtxIn.hashBlock ≠ wtx.hashBlock)
  let branch := decide (wtxIn.nIndex ≠ -1 ∧
    (wtxIn.vMerkleBranch ≠ wtx.vMerkleBranch ∨ wtxIn.nIndex ≠ wtx.nIndex))
  let fromMe := wtxIn.fFromMe && wtxIn.fFromMe != wtx.fFromMe
  ({ wtx with
      hashBlock := if block then wtxIn.hashBlock else wtx.hashBlock
      vMerkleBranch := if branch then wtxIn.vMerkleBranch else wtx.vMerkleBranch
      nIndex := if branch then wtxIn.nIndex else wtx.nIndex
      fFromMe := if fromMe then wtxIn.fFromMe else wtx.fFromMe },
    block || branch || fromMe)

theorem merge_tx (wtx wtxIn : CWalletTx) : (wtx.merge wtxIn).1.tx = wtx.tx := rfl

/-- `wtx.nTimeSmart` as `AddToWallet` leaves it: the time of the block, if that is known. -/
def smartTime (env : WalletEnv) (wtxIn : CWalletTx) : UInt32 :=
  if wtxIn.hashBlock ≠ 0 then (env.blockTimes wtxIn.hashBlock).getD 0 else 0

end CWalletTx

/-- `SyncMetaData` between its loops: the map, `nMinOrderPos` and the key of `copyFrom`. -/
structure OldestSpender where
  mapWallet : AssocMap UInt256 CWalletTx
  nMinOrderPos : Int
  copyFrom : Option UInt256

namespace CWallet

/-- A wallet without transactions. -/
def init (fFileBacked : Bool) (nOrderPosNext : Int) : CWallet := ⟨fFileBacked, ∅, [], nOrderPosNext⟩

/-- `mapWallet[hash]`, which puts an empty entry where there is none. -/
def entryAt (mapWallet : AssocMap UInt256 CWalletTx) (hash : UInt256) :
    AssocMap UInt256 CWalletTx × CWalletTx :=
  (mapWallet.insertNew hash {}, (mapWallet.lookup hash).getD {})

/-- One round of the first loop of `SyncMetaData`; the 64-bit position is read as an `int`. -/
def findOldest (found : OldestSpender) (hash : UInt256) : OldestSpender :=
  let (mapWallet, wtx) := entryAt found.mapWallet hash
  let n := Int.bmod wtx.nOrderPos (2 ^ 32)
  if n < found.nMinOrderPos then ⟨mapWallet, n, some hash⟩
  else ⟨mapWallet, found.nMinOrderPos, found.copyFrom⟩

/-- One round of the second loop. -/
def copyToSpender (copyFrom : UInt256) (mapWallet : AssocMap UInt256 CWalletTx) (hash : UInt256) :
    AssocMap UInt256 CWalletTx :=
  let (mapWallet, copyTo) := entryAt mapWallet hash
  if copyFrom = hash then mapWallet
  else mapWallet.insert hash ((entryAt mapWallet copyFrom).2.copyMetaData copyTo)

/-- `CWallet::SyncMetaData` (`wallet.cpp:370-401`). Without a position below the largest `int`
there is no entry to copy from, and nothing is modelled of what the code then reads. -/
def syncMetaData (mapWallet : AssocMap UInt256 CWalletTx) (range : List UInt256) :
    AssocMap UInt256 CWalletTx :=
  let found := range.foldl findOldest ⟨mapWallet, 2 ^ 31 - 1, none⟩
  match found.copyFrom with
  | none => found.mapWallet
  | some copyFrom => range.foldl (copyToSpender copyFrom) found.mapWallet

/-- `mapTxSpends.equal_range(outpoint)`. -/
def spenders (wallet : CWallet) (outpoint : COutPoint) : List UInt256 :=
  (wallet.mapTxSpends.filter fun spend => spend.1 = outpoint).map Prod.snd

/-- `CWallet::AddToSpends` of one outpoint (`wallet.cpp:424-430`). -/
def addSpend (wtxid : UInt256) (wallet : CWallet) (outpoint : COutPoint) : CWallet :=
  let wallet := { wallet with mapTxSpends := wallet.mapTxSpends ++ [(outpoint, wtxid)] }
  { wallet with mapWallet := syncMetaData wallet.mapWallet (wallet.spenders outpoint) }

/-- `CWallet::AddToSpends` (`wallet.cpp:433-442`); both callers have just filed the entry that it
asserts. -/
def addToSpends (wallet : CWallet) (wtxid : UInt256) : CWallet :=
  match wallet.mapWallet.lookup wtxid with
  | none => wallet
  | some thisTx => thisTx.tx.spends.foldl (addSpend wtxid) wallet

/-- `CWallet::AddToWallet` (`wallet.cpp:635-743`). -/
def addToWallet (env : WalletEnv) (wallet : CWallet) (wtxIn : CWalletTx) (fFromLoadWallet : Bool) :
    CWallet × Bool :=
  let hash := wtxIn.tx.getHash
  if fFromLoadWallet then
    let wallet := { wallet with mapWallet := wallet.mapWallet.insert hash wtxIn }
    (wallet.addToSpends hash, true)
  else
    let smart (wtx : CWalletTx) : CWalletTx := { wtx with nTimeSmart := wtxIn.smartTime env }
    match wallet.mapWallet.lookup hash with
    | none =>
      let received :=
        if wtxIn.nTimeReceived = 0 then UInt32.ofInt env.now else wtxIn.nTimeReceived
      let wtx := { wtxIn with nTimeReceived := received, nOrderPos := wallet.nOrderPosNext }
      let wallet := { wallet with
        mapWallet := wallet.mapWallet.insert hash wtx
        nOrderPosNext := wallet.nOrderPosNext + 1 }
      let wallet := wallet.addToSpends hash
      ({ wallet with mapWallet := wallet.mapWallet.modify hash smart }, env.writeToDisk)
    | some wtx =>
      let (wtx, fUpdated) := wtx.merge wtxIn
      ({ wallet with mapWallet := wallet.mapWallet.insert hash (smart wtx) },
        !fUpdated || env.writeToDisk)

/-- `CWallet::EraseFromWallet` (`wallet.cpp:782-792`). -/
def eraseFromWallet (wallet : CWallet) (hash : UInt256) : CWallet :=
  if wallet.fFileBacked then { wallet with mapWallet := wallet.mapWallet.erase hash } else wallet

end CWallet

/-- The calls that change the two maps. -/
inductive WalletAction where
  | addToWallet (env : WalletEnv) (wtxIn : CWalletTx) (fFromLoadWallet : Bool)
  | eraseFromWallet (hash : UInt256)

/-- A step of the wallet. -/
def walletStep (wallet : CWallet) : WalletAction → CWallet
  | .addToWallet env wtxIn fFromLoadWallet => (wallet.addToWallet env wtxIn fFromLoadWallet).1
  | .eraseFromWallet hash => wallet.eraseFromWallet hash

/-- The hash a call adds a transaction under. -/
def WalletAction.added : WalletAction → Option UInt256
  | .addToWallet _ wtxIn _ => some wtxIn.tx.getHash
  | .eraseFromWallet _ => none

/-! ## Reading the metadata together changes no transaction -/

/-- The entries have the same transactions. -/
def SameTxs (mapWallet mapWallet' : AssocMap UInt256 CWalletTx) : Prop :=
  ∀ hash, (mapWallet'.lookup hash).map CWalletTx.tx = (mapWallet.lookup hash).map CWalletTx.tx

namespace SameTxs

variable {first second third : AssocMap UInt256 CWalletTx}

theorem refl (mapWallet : AssocMap UInt256 CWalletTx) : SameTxs mapWallet mapWallet := fun _ => rfl

theorem trans (h : SameTxs first second) (h' : SameTxs second third) : SameTxs first third :=
  fun hash => (h' hash).trans (h hash)

theorem contains_eq (h : SameTxs first second) (hash : UInt256) :
    second.contains hash = first.contains hash := by
  have same := congrArg Option.isSome (h hash)
  simpa [AssocMap.contains] using same

/-- An entry gives way to one with the same transaction. -/
theorem insert {hash : UInt256} {wtx wtx' : CWalletTx} (found : first.lookup hash = some wtx)
    (same : wtx'.tx = wtx.tx) : SameTxs first (first.insert hash wtx') := by
  intro other
  rw [lookup_insert_eq]
  split
  · rename_i equal
    rw [equal, found, Option.map_some, Option.map_some, same]
  · rfl

theorem modify (mapWallet : AssocMap UInt256 CWalletTx) (hash : UInt256)
    (f : CWalletTx → CWalletTx) (same : ∀ wtx, (f wtx).tx = wtx.tx) :
    SameTxs mapWallet (mapWallet.modify hash f) := by
  intro other
  rw [lookup_modify]
  split
  · rename_i equal
    subst equal
    cases mapWallet.lookup other with
    | none => rfl
    | some wtx => simp [same]
  · rfl

end SameTxs

namespace CWallet

variable {mapWallet : AssocMap UInt256 CWalletTx} {range : List UInt256}

variable {hash wtxid : UInt256}

theorem entryAt_of_lookup {wtx : CWalletTx} (found : mapWallet.lookup hash = some wtx) :
    entryAt mapWallet hash = (mapWallet, wtx) := by
  simp [entryAt, insertNew, found]

theorem findOldest_mapWallet {found : OldestSpender} (filed : found.mapWallet.contains hash = true)
    : (findOldest found hash).mapWallet = found.mapWallet := by
  obtain ⟨wtx, known⟩ := (AssocMap.contains_iff _ _).mp filed
  unfold findOldest
  rw [entryAt_of_lookup known]
  dsimp only
  split <;> rfl

theorem foldl_findOldest_mapWallet {found : OldestSpender}
    (filed : ∀ hash ∈ range, found.mapWallet.contains hash = true) :
    (range.foldl findOldest found).mapWallet = found.mapWallet := by
  induction range generalizing found with
  | nil => rfl
  | cons hash range ih =>
    obtain ⟨here, rest⟩ := forall_mem_cons.mp filed
    have same := findOldest_mapWallet here
    rw [foldl_cons, ih (fun other member => by rw [same]; exact rest other member), same]

theorem copyToSpender_sameTxs (copyFrom : UInt256) (filed : mapWallet.contains hash = true) :
    SameTxs mapWallet (copyToSpender copyFrom mapWallet hash) := by
  obtain ⟨copyTo, known⟩ := (AssocMap.contains_iff _ _).mp filed
  unfold copyToSpender
  rw [entryAt_of_lookup known]
  dsimp only
  split
  · exact SameTxs.refl mapWallet
  · exact SameTxs.insert known rfl

theorem foldl_copyToSpender_sameTxs (copyFrom : UInt256)
    (filed : ∀ hash ∈ range, mapWallet.contains hash = true) :
    SameTxs mapWallet (range.foldl (copyToSpender copyFrom) mapWallet) := by
  induction range generalizing mapWallet with
  | nil => exact SameTxs.refl mapWallet
  | cons hash range ih =>
    obtain ⟨here, rest⟩ := forall_mem_cons.mp filed
    have step := copyToSpender_sameTxs copyFrom here
    refine step.trans (ih fun other member => ?_)
    rw [step.contains_eq]
    exact rest other member

/-- Where all spenders have an entry, `SyncMetaData` makes none. -/
theorem syncMetaData_sameTxs (filed : ∀ hash ∈ range, mapWallet.contains hash = true) :
    SameTxs mapWallet (syncMetaData mapWallet range) := by
  have same : (range.foldl findOldest ⟨mapWallet, 2 ^ 31 - 1, none⟩).mapWallet = mapWallet :=
    foldl_findOldest_mapWallet filed
  unfold syncMetaData
  dsimp only
  rw [same]
  split
  · exact SameTxs.refl mapWallet
  · exact foldl_copyToSpender_sameTxs _ filed

/-! ## Recording a transaction -/

variable {wallet wallet' : CWallet}

/-- Every spender is in the wallet. -/
def SpendersFiled (wallet : CWallet) : Prop :=
  ∀ spend ∈ wallet.mapTxSpends, wallet.mapWallet.contains spend.2 = true

/-- The transaction is recorded and its spends are added. -/
structure Recorded (wallet wallet' : CWallet) (hash : UInt256) (tx : CTransaction) : Prop where
  txs : ∀ other, (wallet'.mapWallet.lookup other).map CWalletTx.tx =
    if other = hash then some tx else (wallet.mapWallet.lookup other).map CWalletTx.tx
  spends : wallet'.mapTxSpends =
    wallet.mapTxSpends ++ tx.spends.map fun outpoint => (outpoint, hash)

theorem mem_spenders {outpoint : COutPoint} :
    hash ∈ wallet.spenders outpoint ↔ (outpoint, hash) ∈ wallet.mapTxSpends := by
  simp only [spenders, mem_map, mem_filter, decide_eq_true_eq, Prod.exists]
  constructor
  · rintro ⟨prevout, wtxid, ⟨member, rfl⟩, rfl⟩
    exact member
  · intro member
    exact ⟨outpoint, hash, ⟨member, rfl⟩, rfl⟩

section

variable (filed : wallet.SpendersFiled)
include filed

section

variable (here : wallet.mapWallet.contains wtxid = true)
include here

theorem addSpend_sameTxs (outpoint : COutPoint) :
    SameTxs wallet.mapWallet (wallet.addSpend wtxid outpoint).mapWallet := by
  apply syncMetaData_sameTxs
  intro hash member
  rcases mem_append.mp (mem_spenders.mp member) with old | new
  · exact filed _ old
  · obtain rfl : hash = wtxid := (Prod.mk.inj (mem_singleton.mp new)).2
    exact here

theorem addSpend_filed (outpoint : COutPoint) :
    (wallet.addSpend wtxid outpoint).SpendersFiled := by
  intro spend member
  rw [(addSpend_sameTxs filed here outpoint).contains_eq]
  rcases mem_append.mp member with old | new
  · exact filed spend old
  · rw [mem_singleton.mp new]
    exact here

theorem foldl_addSpend (outpoints : List COutPoint) :
    SameTxs wallet.mapWallet (outpoints.foldl (addSpend wtxid) wallet).mapWallet ∧
      (outpoints.foldl (addSpend wtxid) wallet).mapTxSpends =
        wallet.mapTxSpends ++ outpoints.map fun outpoint => (outpoint, wtxid) := by
  induction outpoints generalizing wallet with
  | nil => exact ⟨SameTxs.refl _, by simp⟩
  | cons outpoint outpoints ih =>
    have step := addSpend_sameTxs filed here outpoint
    obtain ⟨txs, spends⟩ := ih (addSpend_filed filed here outpoint)
      (by rw [step.contains_eq]; exact here)
    refine ⟨step.trans txs, ?_⟩
    rw [foldl_cons, spends, map_cons]
    show (wallet.mapTxSpends ++ [(outpoint, wtxid)]) ++ _ = _
    rw [append_assoc, singleton_append]

end

/-- An entry is put under `hash` and its spends are recorded. -/
theorem recorded_addToSpends (hash : UInt256) (wtx : CWalletTx) (next : Int) :
    Recorded wallet
      (addToSpends { wallet with mapWallet := wallet.mapWallet.insert hash wtx
                                 nOrderPosNext := next } hash) hash wtx.tx := by
  have found : AList.lookup hash (wallet.mapWallet.insert hash wtx) = some wtx :=
    AList.lookup_insert wallet.mapWallet
  have filed' : SpendersFiled { wallet with mapWallet := wallet.mapWallet.insert hash wtx
                                            nOrderPosNext := next } := by
    intro spend member
    rw [AssocMap.contains_insert, filed spend member, Bool.or_true]
  have here : AssocMap.contains (wallet.mapWallet.insert hash wtx) hash = true := by
    simp [AssocMap.contains_insert]
  obtain ⟨txs, spends⟩ := foldl_addSpend filed' here wtx.tx.spends
  unfold addToSpends
  rw [found]
  refine ⟨fun other => ?_, spends⟩
  rw [txs other, lookup_insert_eq]
  split <;> rfl

/-- Loading an entry records it, whether there is one already or not. -/
theorem recorded_load (env : WalletEnv) (wtxIn : CWalletTx) :
    Recorded wallet (wallet.addToWallet env wtxIn true).1 wtxIn.tx.getHash wtxIn.tx :=
  recorded_addToSpends filed wtxIn.tx.getHash wtxIn wallet.nOrderPosNext

theorem recorded_fresh (env : WalletEnv) {wtxIn : CWalletTx}
    (absent : wallet.mapWallet.lookup wtxIn.tx.getHash = none) :
    Recorded wallet (wallet.addToWallet env wtxIn false).1 wtxIn.tx.getHash wtxIn.tx := by
  have step := recorded_addToSpends filed wtxIn.tx.getHash
    { wtxIn with
      nTimeReceived :=
        if wtxIn.nTimeReceived = 0 then UInt32.ofInt env.now else wtxIn.nTimeReceived
      nOrderPos := wallet.nOrderPosNext } (wallet.nOrderPosNext + 1)
  unfold addToWallet
  rw [if_neg Bool.false_ne_true, absent]
  refine ⟨fun other => ?_, step.spends⟩
  exact (SameTxs.modify _ wtxIn.tx.getHash
    (fun wtx => { wtx with nTimeSmart := wtxIn.smartTime env }) (fun _ => rfl) other).trans
      (step.txs other)

end

/-- A fresh call for an entry that is there changes nothing but its other fields. -/
theorem addToWallet_present (env : WalletEnv) {wtxIn wtx : CWalletTx}
    (found : wallet.mapWallet.lookup wtxIn.tx.getHash = some wtx) :
    SameTxs wallet.mapWallet (wallet.addToWallet env wtxIn false).1.mapWallet ∧
      (wallet.addToWallet env wtxIn false).1.mapTxSpends = wallet.mapTxSpends := by
  unfold addToWallet
  rw [if_neg Bool.false_ne_true, found]
  exact ⟨SameTxs.insert found (wtx.merge_tx wtxIn), rfl⟩

/-! ## The spends are those of the transactions -/

/-- The outpoints that the entry under `hash` spends, if there is one. -/
def spentBy (wallet : CWallet) (hash : UInt256) : List COutPoint :=
  ((wallet.mapWallet.lookup hash).map CWalletTx.tx).elim [] CTransaction.spends

/-- `mapTxSpends` is the multimap of the inputs of the transactions in `mapWallet`. -/
def SpendsExact (wallet : CWallet) : Prop :=
  ∀ outpoint hash, wallet.mapTxSpends.count (outpoint, hash) = (wallet.spentBy hash).count outpoint

theorem spentBy_of_sameTxs (same : SameTxs wallet.mapWallet wallet'.mapWallet) (hash : UInt256) :
    wallet'.spentBy hash = wallet.spentBy hash := by
  rw [spentBy, same hash, spentBy]

theorem SpendsExact.init (fFileBacked : Bool) (nOrderPosNext : Int) :
    (CWallet.init fFileBacked nOrderPosNext).SpendsExact := fun _ _ => rfl

theorem SpendsExact.mem_iff (exact : wallet.SpendsExact) {outpoint : COutPoint} :
    (outpoint, hash) ∈ wallet.mapTxSpends ↔ outpoint ∈ wallet.spentBy hash := by
  rw [← count_pos_iff, exact outpoint hash, count_pos_iff]

theorem SpendsExact.filed (exact : wallet.SpendsExact) : wallet.SpendersFiled := by
  rintro ⟨outpoint, hash⟩ member
  have spent := exact.mem_iff.mp member
  rw [AssocMap.contains_iff]
  unfold spentBy at spent
  cases found : wallet.mapWallet.lookup hash with
  | none => simp [found] at spent
  | some wtx => exact ⟨wtx, rfl⟩

theorem SpendsExact.of_sameTxs (exact : wallet.SpendsExact)
    (same : SameTxs wallet.mapWallet wallet'.mapWallet)
    (spends : wallet'.mapTxSpends = wallet.mapTxSpends) : wallet'.SpendsExact := by
  intro outpoint hash
  rw [spends, spentBy_of_sameTxs same, exact outpoint hash]

theorem count_spends (outpoints : List COutPoint) (wtxid hash : UInt256) (outpoint : COutPoint) :
    (outpoints.map fun prevout => (prevout, wtxid)).count (outpoint, hash) =
      if hash = wtxid then outpoints.count outpoint else 0 := by
  split
  · rename_i equal
    subst equal
    exact count_map_of_injective outpoints (fun prevout => (prevout, hash))
      (fun _ _ same => (Prod.mk.inj same).1) outpoint
  rename_i apart
  apply count_eq_zero.mpr
  intro member
  obtain ⟨prevout, -, same⟩ := mem_map.mp member
  exact apart (Prod.mk.inj same).2.symm

/-- Recording a transaction keeps the spends exact if it stands for none that was recorded
before. -/
theorem Recorded.spendsExact_iff {tx : CTransaction} (recorded : Recorded wallet wallet' hash tx)
    (exact : wallet.SpendsExact) : wallet'.SpendsExact ↔ wallet.spentBy hash = [] := by
  have count : ∀ outpoint other, wallet'.mapTxSpends.count (outpoint, other) =
      (wallet.spentBy other).count outpoint +
        if other = hash then tx.spends.count outpoint else 0 := by
    intro outpoint other
    rw [recorded.spends, count_append, exact, count_spends]
  have spent : ∀ other, wallet'.spentBy other =
      if other = hash then tx.spends else wallet.spentBy other := by
    intro other
    rw [spentBy, recorded.txs other, spentBy]
    split <;> rfl
  constructor
  · intro exact'
    apply eq_nil_iff_forall_not_mem.mpr
    intro outpoint member
    have same := exact' outpoint hash
    rw [count, spent, if_pos rfl, if_pos rfl] at same
    have some := count_pos_iff.mpr member
    omega
  · intro nothing outpoint other
    rw [count, spent]
    split
    · rename_i equal
      rw [equal, nothing, count_nil, Nat.zero_add]
    · rfl

theorem erase_spendsExact_iff (exact : wallet.SpendsExact) (hash : UInt256) :
    (wallet.eraseFromWallet hash).SpendsExact ↔
      (wallet.fFileBacked = true → wallet.spentBy hash = []) := by
  unfold eraseFromWallet
  split
  · rename_i backed
    have spent : ∀ other,
        spentBy { wallet with mapWallet := wallet.mapWallet.erase hash } other =
          if other = hash then [] else wallet.spentBy other := by
      intro other
      rw [spentBy, lookup_erase_eq, spentBy]
      split <;> rfl
    constructor
    · intro exact' _
      apply eq_nil_iff_forall_not_mem.mpr
      intro outpoint member
      have same := exact' outpoint hash
      rw [spent, if_pos rfl, count_nil] at same
      exact count_eq_zero.mp same (exact.mem_iff.mpr member)
    intro nothing outpoint other
    rw [spent]
    split
    · rename_i equal
      rw [equal, exact, nothing backed]
    · exact exact outpoint other
  · rename_i unbacked
    exact iff_of_true exact fun backed => absurd backed unbacked

end CWallet

/-! ## Runs -/

/-- The call takes away or replaces no entry whose spends are recorded. -/
def LosesNoSpender (wallet : CWallet) : WalletAction → Prop
  | .addToWallet _ wtxIn true => wallet.spentBy wtxIn.tx.getHash = []
  | .addToWallet _ _ false => True
  | .eraseFromWallet hash => wallet.fFileBacked = true → wallet.spentBy hash = []

/-- The call makes an entry for no transaction but the one it adds. -/
def FilesOnlyAdded (wallet : CWallet) (action : WalletAction) : Prop :=
  ∀ hash, (walletStep wallet action).mapWallet.contains hash = true →
    wallet.mapWallet.contains hash = true ∨ action.added = some hash

theorem walletStep_spendsExact_iff {wallet : CWallet} (exact : wallet.SpendsExact)
    (action : WalletAction) :
    (walletStep wallet action).SpendsExact ↔ LosesNoSpender wallet action := by
  cases action with
  | eraseFromWallet hash => exact CWallet.erase_spendsExact_iff exact hash
  | addToWallet env wtxIn fFromLoadWallet =>
    cases fFromLoadWallet with
    | true => exact (CWallet.recorded_load exact.filed env wtxIn).spendsExact_iff exact
    | false =>
      refine iff_of_true ?_ trivial
      cases found : wallet.mapWallet.lookup wtxIn.tx.getHash with
      | none =>
        refine ((CWallet.recorded_fresh exact.filed env found).spendsExact_iff exact).mpr ?_
        rw [CWallet.spentBy, found]
        rfl
      | some wtx =>
        obtain ⟨same, spends⟩ := CWallet.addToWallet_present env found
        exact exact.of_sameTxs same spends

theorem CWallet.Recorded.filesOnly {wallet wallet' : CWallet} {hash : UInt256} {tx : CTransaction}
    (recorded : Recorded wallet wallet' hash tx) {other : UInt256}
    (filed : wallet'.mapWallet.contains other = true) :
    wallet.mapWallet.contains other = true ∨ some hash = some other := by
  have txs := congrArg Option.isSome (recorded.txs other)
  rw [Option.isSome_map] at txs
  unfold AssocMap.contains at filed ⊢
  rw [filed] at txs
  split at txs
  · rename_i equal
    exact Or.inr (congrArg some equal.symm)
  · rw [Option.isSome_map] at txs
    exact Or.inl txs.symm

theorem filesOnlyAdded_of_spendsExact {wallet : CWallet} (exact : wallet.SpendsExact)
    (action : WalletAction) : FilesOnlyAdded wallet action := by
  intro hash filed
  cases action with
  | eraseFromWallet erased =>
    refine Or.inl ?_
    unfold walletStep CWallet.eraseFromWallet at filed
    dsimp only at filed
    split at filed
    · rw [contains_erase, Bool.and_eq_true] at filed
      exact filed.2
    · exact filed
  | addToWallet env wtxIn fFromLoadWallet =>
    cases fFromLoadWallet with
    | true => exact (CWallet.recorded_load exact.filed env wtxIn).filesOnly filed
    | false =>
      cases found : wallet.mapWallet.lookup wtxIn.tx.getHash with
      | none => exact (CWallet.recorded_fresh exact.filed env found).filesOnly filed
      | some wtx =>
        refine Or.inl ?_
        rw [← (CWallet.addToWallet_present env found).1.contains_eq]
        exact filed

def spenderOf1 (hash : UInt256) : CWalletTx :=
  { tx := ⟨hash, 1, [{ prevout := ⟨1, 0⟩ }], [], 0, []⟩ }

/-- A transaction comes in and is erased, and another one that spends the same output comes in. -/
def erasedSpender : List WalletAction :=
  [.addToWallet ⟨0, fun _ => none, true⟩ (spenderOf1 7) false, .eraseFromWallet 7,
    .addToWallet ⟨0, fun _ => none, true⟩ (spenderOf1 8) false]

end Esbcoin
