import Mathlib.Tactic.SplitIfs
import Esbcoin.Coins.Cache

namespace Esbcoin.CoinsStack

open StepRun

/-- What the top of the caches shows under `txid`. -/
def shown (base : CCoinsViewDB) (txid : UInt256) : List CCoinsViewCache → Option CCoins
  | [] => (base.getCoins txid).bind CCoins.visible
  | cache :: below =>
    match cache.cacheCoins.lookup txid with
    | some entry => entry.coins.visible
    | none => shown base txid below

/-- The next view down is the database or has an entry under `txid`. -/
def HeadHolds (txid : UInt256) : List CCoinsViewCache → Prop
  | [] => True
  | cache :: _ => cache.cacheCoins.lookup txid ≠ none

/-- What the flags of an entry say about the views below it. -/
structure EntryCoherent (base : CCoinsViewDB) (below : List CCoinsViewCache) (txid : UInt256)
    (entry : CCoinsCacheEntry) : Prop where
  cleaned : entry.coins.Cleaned
  clean : entry.dirty = false → entry.coins.visible = shown base txid below
  fresh : entry.fresh = true → shown base txid below = none
  held : entry.fresh = false → HeadHolds txid below

/-- Every entry of every cache agrees with the views below it. -/
def Coherent (base : CCoinsViewDB) : List CCoinsViewCache → Prop
  | [] => True
  | cache :: below =>
    (∀ txid entry, cache.cacheCoins.lookup txid = some entry →
      EntryCoherent base below txid entry) ∧ Coherent base below

section Shown

variable {base base' : CCoinsViewDB} {below below' upper lower lower' : List CCoinsViewCache}
variable {cache : CCoinsViewCache} {txid : UInt256} {entry : CCoinsCacheEntry}

theorem shown_of_lookup (h : cache.cacheCoins.lookup txid = some entry) :
    shown base txid (cache :: below) = entry.coins.visible := by simp [shown, h]

theorem shown_of_lookup_none (h : cache.cacheCoins.lookup txid = none) :
    shown base txid (cache :: below) = shown base txid below := by simp [shown, h]

theorem EntryCoherent.transfer (h : EntryCoherent base below txid entry)
    (same : shown base' txid below' = shown base txid below)
    (holds : HeadHolds txid below → HeadHolds txid below') :
    EntryCoherent base' below' txid entry where
  cleaned := h.cleaned
  clean notDirty := by rw [same]; exact h.clean notDirty
  fresh isFresh := by rw [same]; exact h.fresh isFresh
  held notFresh := holds (h.held notFresh)

/-- What lies under the first entry for `txid` does not show. -/
theorem shown_append_of_lookup (held : ∃ cache ∈ upper, cache.cacheCoins.lookup txid ≠ none) :
    shown base' txid (upper ++ lower') = shown base txid (upper ++ lower) := by
  induction upper with
  | nil => simp at held
  | cons cache upper ih =>
    cases found : cache.cacheCoins.lookup txid with
    | some entry =>
      rw [List.cons_append, List.cons_append, shown_of_lookup found, shown_of_lookup found]
    | none =>
      rw [List.cons_append, List.cons_append, shown_of_lookup_none found,
        shown_of_lookup_none found]
      apply ih
      obtain ⟨cache', member, nonempty⟩ := held
      rcases List.mem_cons.mp member with rfl | member
      · exact absurd found nonempty
      · exact ⟨cache', member, nonempty⟩

theorem shown_append_of_lookup_none
    (absent : ∀ cache ∈ upper, cache.cacheCoins.lookup txid = none) :
    shown base txid (upper ++ lower) = shown base txid lower := by
  induction upper with
  | nil => rfl
  | cons cache upper ih =>
    rw [List.cons_append, shown_of_lookup_none (absent cache (by simp))]
    exact ih fun cache' member => absent cache' (List.mem_cons_of_mem _ member)

/-- The frame rule of the stack: the upper caches stay coherent when the views below them change
only where no upper cache has an entry. -/
theorem coherent_append (coherent : Coherent base (upper ++ lower))
    (coherent' : Coherent base' lower')
    (same : ∀ txid, (∃ cache ∈ upper, cache.cacheCoins.lookup txid ≠ none) →
      shown base' txid lower' = shown base txid lower)
    (holds : ∀ cache, upper.getLast? = some cache → ∀ txid,
      cache.cacheCoins.lookup txid ≠ none → HeadHolds txid lower → HeadHolds txid lower') :
    Coherent base' (upper ++ lower') := by
  induction upper with
  | nil => exact coherent'
  | cons cache upper ih =>
    obtain ⟨entries, rest⟩ := coherent
    refine ⟨fun txid entry found => (entries txid entry found).transfer ?_ ?_, ?_⟩
    · by_cases held : ∃ cache ∈ upper, cache.cacheCoins.lookup txid ≠ none
      · exact shown_append_of_lookup held
      have absent : ∀ cache ∈ upper, cache.cacheCoins.lookup txid = none := by
        intro cache' member
        by_contra nonempty
        exact held ⟨cache', member, nonempty⟩
      show shown base' txid (upper ++ lower') = shown base txid (upper ++ lower)
      rw [shown_append_of_lookup_none absent, shown_append_of_lookup_none absent]
      exact same txid ⟨cache, by simp, by simp [found]⟩
    · cases upper with
      | nil => exact holds cache rfl txid (by simp [found])
      | cons next upper => exact id
    · refine ih rest (fun txid held => same txid ?_) fun last isLast => holds last ?_
      · obtain ⟨cache', member, nonempty⟩ := held
        exact ⟨cache', List.mem_cons_of_mem _ member, nonempty⟩
      · cases upper with
        | nil => cases isLast
        | cons next upper => simpa using isLast

end Shown

/-! ## Reads -/

/-- The caches were filled: they show the same, have the entries they had, and are as many. -/
structure Filled (base : CCoinsViewDB) (caches caches' : List CCoinsViewCache) : Prop where
  coherent : Coherent base caches'
  shown : ∀ txid, shown base txid caches' = CoinsStack.shown base txid caches
  holds : ∀ txid, HeadHolds txid caches → HeadHolds txid caches'
  length : caches'.length = caches.length

variable {caches : List CCoinsViewCache} {parent : CCoinsViewCache} {view : FlatCoins}
  {s : CoinsStack}

/-- A fetch finds the record that is shown, clean, and leaves an entry for it. -/
theorem fetch_spec {base : CCoinsViewDB} (txid : UInt256) (coherent : Coherent base caches) :
    Filled base caches (fetch base txid caches).2 ∧
      (fetch base txid caches).1.bind CCoins.visible = shown base txid caches ∧
      ∀ coins, (fetch base txid caches).1 = some coins →
        coins.Cleaned ∧ HeadHolds txid (fetch base txid caches).2 := by
  induction caches with
  | nil =>
    refine ⟨⟨trivial, fun _ => rfl, fun _ => id, rfl⟩, rfl, fun coins found => ⟨?_, trivial⟩⟩
    simp only [fetch, CCoinsViewDB.getCoins, Option.map_eq_some_iff] at found
    obtain ⟨stored, -, rfl⟩ := found
    exact CCoins.cleaned_cleanup stored
  | cons cache below ih =>
    obtain ⟨entries, rest⟩ := coherent
    obtain ⟨filled, finds, held⟩ := ih rest
    cases here : cache.cacheCoins.lookup txid with
    | some entry =>
      simp only [fetch, here, shown_of_lookup here]
      refine ⟨⟨⟨entries, rest⟩, fun _ => rfl, fun _ => id, rfl⟩, rfl, fun coins found => ?_⟩
      obtain rfl := Option.some.inj found
      exact ⟨(entries txid entry here).cleaned, by simp [HeadHolds, here]⟩
    | none =>
      have below_entries : ∀ key entry, cache.cacheCoins.lookup key = some entry →
          EntryCoherent base (fetch base txid below).2 key entry := fun key entry found =>
        (entries key entry found).transfer (filled.shown key) (filled.holds key)
      rw [shown_of_lookup_none here]
      cases found : (fetch base txid below).1 with
      | none =>
        rw [found] at finds
        simp only [fetch, here, found]
        refine ⟨⟨⟨below_entries, filled.coherent⟩, fun key => ?_, fun _ => id, ?_⟩, finds, by simp⟩
        · simp only [CoinsStack.shown, filled.shown]
        · simp [filled.length]
      | some coins =>
        rw [found] at finds
        obtain ⟨cleaned, headHeld⟩ := held coins found
        simp only [fetch, here, found]
        have finds' : coins.visible = shown base txid below := finds
        refine ⟨⟨⟨?_, filled.coherent⟩, fun key => ?_, fun key holds => ?_, ?_⟩, finds,
          fun coins' equal => ?_⟩
        · intro key entry lookup
          rw [AssocMap.lookup_insert_eq] at lookup
          split at lookup
          · rename_i equal
            obtain rfl := Option.some.inj lookup
            subst equal
            refine ⟨cleaned, fun _ => ?_, fun pruned => ?_, fun _ => headHeld⟩
            · rw [filled.shown]
              exact finds'
            · rw [filled.shown, ← finds']
              exact CCoins.visible_eq_none.mpr pruned
          · exact below_entries key entry lookup
        · simp only [CoinsStack.shown, AssocMap.lookup_insert_eq]
          by_cases equal : key = txid
          · subst equal
            simp [here, finds']
          · simp [equal, filled.shown]
        · simp only [HeadHolds, AssocMap.lookup_insert_eq] at holds ⊢
          split
          · simp
          · exact holds
        · simp [filled.length]
        · obtain rfl := Option.some.inj equal
          exact ⟨cleaned, by simp [HeadHolds]⟩

/-! ## Modifiers -/

/-- Equal records, in the sense of `operator==`, are edited to equal records: the edit does
not read what a fully spent record was. -/
def SpentAlike (edit : CCoins → CCoins) : Prop :=
  ∀ a b : CCoins, a.equal b = true → (edit a).equal (edit b) = true

/-- `ModifyCoins` hands out the record that is shown, in an entry that is coherent but for
the record, which is the caller's to edit. -/
theorem modifyEntry_spec {base : CCoinsViewDB} (txid : UInt256) {cache : CCoinsViewCache}
    {below : List CCoinsViewCache} (coherent : Coherent base (cache :: below)) :
    Filled base below (modifyEntry base txid cache below).2 ∧
      (modifyEntry base txid cache below).1.coins.visible = shown base txid (cache :: below) ∧
      (modifyEntry base txid cache below).1.dirty = true ∧
      ((modifyEntry base txid cache below).1.fresh = true → shown base txid below = none) ∧
      ((modifyEntry base txid cache below).1.fresh = false →
        HeadHolds txid (modifyEntry base txid cache below).2) := by
  obtain ⟨entries, rest⟩ := coherent
  cases here : cache.cacheCoins.lookup txid with
  | some entry =>
    have coherentEntry := entries txid entry here
    simp only [modifyEntry, here, shown_of_lookup here]
    exact ⟨⟨rest, fun _ => rfl, fun _ => id, rfl⟩, trivial, trivial, coherentEntry.fresh,
      coherentEntry.held⟩
  | none =>
    obtain ⟨filled, finds, held⟩ := fetch_spec txid rest
    rw [shown_of_lookup_none here]
    rcases fetched : fetch base txid below with ⟨found, below'⟩
    rw [fetched] at filled finds held
    cases found with
    | none =>
      simp only [modifyEntry, here, fetched]
      exact ⟨filled, finds, trivial, fun _ => finds.symm, fun h => by cases h⟩
    | some coins =>
      obtain ⟨-, headHeld⟩ := held coins rfl
      simp only [modifyEntry, here, fetched]
      have finds' : coins.visible = shown base txid below := finds
      refine ⟨filled, finds', trivial, fun pruned => ?_, fun _ => headHeld⟩
      rw [← finds']
      exact CCoins.visible_eq_none.mpr pruned

/-- The destructor stores the cleaned record, or nothing where nothing is below. -/
theorem releaseEntry_spec {base : CCoinsViewDB} {txid : UInt256} {cache : CCoinsViewCache}
    {below : List CCoinsViewCache} {entry : CCoinsCacheEntry}
    (entries : ∀ key other, cache.cacheCoins.lookup key = some other →
      EntryCoherent base below key other)
    (rest : Coherent base below) (dirty : entry.dirty = true)
    (fresh : entry.fresh = true → shown base txid below = none)
    (held : entry.fresh = false → HeadHolds txid below) :
    Coherent base (cache.releaseEntry txid entry :: below) ∧
      ∀ key, shown base key (cache.releaseEntry txid entry :: below) =
        if key = txid then entry.coins.cleanup.visible else shown base key (cache :: below) := by
  unfold CCoinsViewCache.releaseEntry
  simp only [CCoins.isPruned_cleanup]
  cases gone : entry.fresh && entry.coins.isPruned with
  | true =>
    obtain ⟨isFresh, pruned⟩ := Bool.and_eq_true_iff.mp gone
    simp only [↓reduceIte]
    refine ⟨⟨fun key other lookup => ?_, rest⟩, fun key => ?_⟩
    · rw [AssocMap.lookup_erase_eq] at lookup
      split at lookup
      · cases lookup
      · exact entries key other lookup
    simp only [shown, AssocMap.lookup_erase_eq]
    by_cases equal : key = txid
    · subst equal
      have hidden : entry.coins.cleanup.visible = none :=
        CCoins.visible_eq_none.mpr (by simpa using pruned)
      simp [hidden, fresh isFresh]
    · simp [equal]
  | false =>
    simp only [Bool.false_eq_true, ↓reduceIte]
    refine ⟨⟨fun key other lookup => ?_, rest⟩, fun key => ?_⟩
    · rw [AssocMap.lookup_insert_eq] at lookup
      split at lookup
      · rename_i equal
        obtain rfl := Option.some.inj lookup
        subst equal
        exact ⟨CCoins.cleaned_cleanup _, fun notDirty => by simp [dirty] at notDirty, fresh, held⟩
      · exact entries key other lookup
    · simp only [shown, AssocMap.lookup_insert_eq]
      by_cases equal : key = txid
      · simp [equal]
      · simp [equal]

theorem modify_spec {base : CCoinsViewDB} (txid : UInt256) {edit : CCoins → CCoins}
    (alike : SpentAlike edit) (coherent : Coherent base caches) (nonempty : caches ≠ []) :
    Coherent base (modify base txid edit caches) ∧
      (modify base txid edit caches).length = caches.length ∧
      (∀ key, key ≠ txid → HeadHolds key caches → HeadHolds key (modify base txid edit caches)) ∧
      ∀ key, shown base key (modify base txid edit caches) =
        if key = txid then
          (edit ((shown base txid caches).getD CCoins.clear)).cleanup.visible
        else shown base key caches := by
  cases caches with
  | nil => exact absurd rfl nonempty
  | cons cache below =>
    obtain ⟨filled, finds, dirty, fresh, held⟩ := modifyEntry_spec txid coherent
    rcases handed : modifyEntry base txid cache below with ⟨entry, below'⟩
    rw [handed] at filled finds dirty fresh held
    simp only [modify, handed]
    have entries : ∀ key other, cache.cacheCoins.lookup key = some other →
        EntryCoherent base below' key other := fun key other lookup =>
      (coherent.1 key other lookup).transfer (filled.shown key) (filled.holds key)
    obtain ⟨coherent', shown'⟩ := @releaseEntry_spec _ _ _ _
      { entry with coins := edit entry.coins } entries filled.coherent dirty
      (fun isFresh => by rw [filled.shown]; exact fresh isFresh) held
    refine ⟨coherent', by simp [filled.length], fun key apart holds => ?_, fun key => ?_⟩
    · unfold CCoinsViewCache.releaseEntry
      simp only [HeadHolds] at holds ⊢
      split
      · rw [AssocMap.lookup_erase_eq, if_neg apart]
        exact holds
      · rw [AssocMap.lookup_insert_eq, if_neg apart]
        exact holds
    · rw [shown']
      by_cases equal : key = txid
      · rw [if_pos equal, if_pos equal, ← finds]
        exact CCoins.visible_cleanup_of_equal (alike _ _ entry.coins.equal_getD_visible)
      · rw [if_neg equal, if_neg equal]
        simp only [shown, filled.shown]

/-! ## Flushing -/

/-- What a child's entry does to the parent's entry under the same key. -/
def mergeEntry (entry : CCoinsCacheEntry) (old : Option CCoinsCacheEntry) :
    Option CCoinsCacheEntry :=
  if entry.dirty then
    match old with
    | none =>
      if entry.coins.isPruned then none
      else some { coins := entry.coins, dirty := true, fresh := true }
    | some us =>
      if us.fresh && entry.coins.isPruned then none
      else some { us with coins := entry.coins, dirty := true }
  else old

/-- `BatchWrite` meets its assertion with a coherent entry: where the parent has no entry the
child's is `FRESH`. -/
theorem writeEntry_spec {base : CCoinsViewDB} {below : List CCoinsViewCache} {txid : UInt256}
    {entry : CCoinsCacheEntry} (coherent : EntryCoherent base (parent :: below) txid entry)
    {target : CCoinsMap} (same : target.lookup txid = parent.cacheCoins.lookup txid) :
    ∃ target', CCoinsViewCache.writeEntry txid entry target = some target' ∧
      ∀ key, target'.lookup key =
        if key = txid then mergeEntry entry (target.lookup txid) else target.lookup key := by
  unfold CCoinsViewCache.writeEntry mergeEntry
  cases entry.dirty with
  | false =>
    refine ⟨target, rfl, fun key => ?_⟩
    by_cases equal : key = txid
    · subst equal
      simp
    · simp [equal]
  | true =>
    simp only [↓reduceIte]
    cases old : target.lookup txid with
    | none =>
      cases pruned : entry.coins.isPruned with
      | true =>
        refine ⟨target, rfl, fun key => ?_⟩
        by_cases equal : key = txid
        · subst equal
          simp [old]
        · simp [equal]
      | false =>
        have fresh : entry.fresh = true := by
          by_contra notFresh
          exact coherent.held (by simpa using notFresh) (same ▸ old)
        exact ⟨_, by rw [if_neg (by simp), if_pos fresh],
          fun key => AssocMap.lookup_insert_eq _ _ _ _⟩
    | some us =>
      dsimp only
      cases us.fresh && entry.coins.isPruned with
      | true => exact ⟨_, rfl, fun key => AssocMap.lookup_erase_eq _ _ _⟩
      | false => exact ⟨_, rfl, fun key => AssocMap.lookup_insert_eq _ _ _ _⟩

/-- The merged entry is coherent and shows what the child's entry shows. -/
theorem mergeEntry_spec {base : CCoinsViewDB} {below : List CCoinsViewCache} {txid : UInt256}
    {entry : CCoinsCacheEntry} (coherent : EntryCoherent base (parent :: below) txid entry)
    (ours : ∀ us, parent.cacheCoins.lookup txid = some us → EntryCoherent base below txid us) :
    (∀ merged, mergeEntry entry (parent.cacheCoins.lookup txid) = some merged →
      EntryCoherent base below txid merged ∧ merged.coins.visible = entry.coins.visible) ∧
      (mergeEntry entry (parent.cacheCoins.lookup txid) = none →
        shown base txid below = entry.coins.visible) := by
  unfold mergeEntry
  cases dirty : entry.dirty with
  | false =>
    have clean := coherent.clean dirty
    refine ⟨fun merged found => ⟨ours merged found, ?_⟩, fun absent => ?_⟩
    · rw [clean, shown_of_lookup found]
    · rw [clean, shown_of_lookup_none absent]
  | true =>
    cases old : parent.cacheCoins.lookup txid with
    | none =>
      have fresh : entry.fresh = true := by
        by_contra notFresh
        exact coherent.held (by simpa using notFresh) old
      have nothing := coherent.fresh fresh
      rw [shown_of_lookup_none old] at nothing
      cases pruned : entry.coins.isPruned with
      | true =>
        refine ⟨by simp, fun _ => ?_⟩
        rw [nothing, CCoins.visible_eq_none.mpr pruned]
      | false =>
        refine ⟨fun merged found => ?_, by simp⟩
        obtain rfl := Option.some.inj found
        exact ⟨⟨coherent.cleaned, by simp, fun _ => nothing, by simp⟩, rfl⟩
    | some us =>
      have coherentUs := ours us old
      dsimp only
      cases gone : us.fresh && entry.coins.isPruned with
      | true =>
        obtain ⟨isFresh, pruned⟩ := Bool.and_eq_true_iff.mp gone
        refine ⟨by simp, fun _ => ?_⟩
        rw [coherentUs.fresh isFresh, CCoins.visible_eq_none.mpr pruned]
      | false =>
        refine ⟨fun merged found => ?_, by simp⟩
        obtain rfl := Option.some.inj found
        exact ⟨⟨coherent.cleaned, by simp, coherentUs.fresh, coherentUs.held⟩, rfl⟩

/-- The database takes over what the cache shows. -/
theorem batchWrite_base {base : CCoinsViewDB} {cache : CCoinsViewCache}
    (coherent : Coherent base [cache]) (hashBlock : UInt256) :
    ∃ base', base.batchWrite cache.cacheCoins hashBlock = some base' ∧
      ∀ txid, shown base' txid [] = shown base txid [cache] := by
  obtain ⟨db, written, lookups⟩ := @AssocMap.forEach_lookup _ _ _ _ CCoinsViewDB.writeEntry
    (fun _ (entry : CCoinsCacheEntry) old =>
      if entry.dirty then if entry.coins.isPruned then none else some entry.coins else old)
    cache.cacheCoins base.db (by
      intro key entry target _ _
      unfold CCoinsViewDB.writeEntry
      cases entry.dirty with
      | false =>
        refine ⟨target, rfl, fun key' => ?_⟩
        by_cases equal : key' = key
        · subst equal
          simp
        · simp [equal]
      | true =>
        cases entry.coins.isPruned with
        | true => exact ⟨_, rfl, fun key' => AssocMap.lookup_erase_eq _ _ _⟩
        | false => exact ⟨_, rfl, fun key' => AssocMap.lookup_insert_eq _ _ _ _⟩)
  refine ⟨_, by simp [CCoinsViewDB.batchWrite, written]; rfl, fun txid => ?_⟩
  simp only [shown, CCoinsViewDB.getCoins, lookups]
  cases found : cache.cacheCoins.lookup txid with
  | none => rfl
  | some entry =>
    have coherentEntry := coherent.1 txid entry found
    dsimp only
    cases dirty : entry.dirty with
    | false => exact (coherentEntry.clean dirty).symm
    | true =>
      cases pruned : entry.coins.isPruned with
      | true => exact (CCoins.visible_eq_none.mpr pruned).symm
      | false =>
        have cleaned : entry.coins.cleanup = entry.coins := coherentEntry.cleaned
        simp [cleaned]

theorem batchWrite_cache {base : CCoinsViewDB} {cache : CCoinsViewCache}
    {below : List CCoinsViewCache} (coherent : Coherent base (cache :: parent :: below))
    (hashBlock : UInt256) :
    ∃ parent', parent.batchWrite cache.cacheCoins hashBlock = some parent' ∧
      Coherent base (parent' :: below) ∧
      ∀ txid, shown base txid (parent' :: below) = shown base txid (cache :: parent :: below) := by
  obtain ⟨childEntries, parentEntries, rest⟩ := coherent
  obtain ⟨cacheCoins, written, lookups⟩ := @AssocMap.forEach_lookup _ _ _ _
    CCoinsViewCache.writeEntry (fun _ entry old => mergeEntry entry old)
    cache.cacheCoins parent.cacheCoins (by
      intro key entry target found same
      exact writeEntry_spec (childEntries key entry found) same)
  refine ⟨_, by simp [CCoinsViewCache.batchWrite, written]; rfl, ⟨fun txid entry found => ?_, rest⟩,
    fun txid => ?_⟩
  · rw [lookups] at found
    cases child : cache.cacheCoins.lookup txid with
    | none =>
      rw [child] at found
      exact parentEntries txid entry found
    | some childEntry =>
      rw [child] at found
      exact ((mergeEntry_spec (childEntries txid childEntry child)
        (parentEntries txid)).1 entry found).1
  cases child : cache.cacheCoins.lookup txid with
  | none =>
    simp only [shown, lookups, child]
  | some childEntry =>
    obtain ⟨merged, absent⟩ := mergeEntry_spec (childEntries txid childEntry child)
      (parentEntries txid)
    simp only [shown, lookups, child]
    cases result : mergeEntry childEntry (parent.cacheCoins.lookup txid) with
    | none => exact absent result
    | some entry => exact (merged entry result).2

/-- A flush succeeds, empties the top cache and changes nothing that is shown. -/
theorem flushTop_spec {base : CCoinsViewDB} (coherent : Coherent base caches) :
    ∃ caches' base', flushTop base caches = some (caches', base') ∧ Coherent base' caches' ∧
      caches'.length = caches.length ∧
      (∀ cache, caches'.head? = some cache → cache.cacheCoins = ∅) ∧
      ∀ txid, shown base' txid caches' = shown base txid caches := by
  match caches, coherent with
  | [], _ => exact ⟨[], base, rfl, trivial, rfl, by simp, fun _ => rfl⟩
  | [cache], coherent =>
    obtain ⟨base', written, shows⟩ := batchWrite_base coherent cache.hashBlock
    refine ⟨[{ cache with cacheCoins := ∅ }], base', by simp [flushTop, written],
      ⟨by simp, trivial⟩, rfl, by simp, fun txid => ?_⟩
    rw [← shows, shown_of_lookup_none (by simp)]
  | cache :: parent :: below, coherent =>
    obtain ⟨parent', written, coherent', shows⟩ := batchWrite_cache coherent cache.hashBlock
    refine ⟨{ cache with cacheCoins := ∅ } :: parent' :: below, base,
      by simp [flushTop, written], ⟨by simp, coherent'⟩, rfl, by simp, fun txid => ?_⟩
    rw [← shows, shown_of_lookup_none (by simp)]

/-! ## Runs -/

/-- The cache that an operation starts at. -/
def opLayer : CoinsOp → Nat
  | .getCoins layer _ | .accessCoins layer _ | .haveCoins layer _ | .modifyCoins layer _ _
  | .flush layer => layer

/-- The operation is on a layer that no cache with changes lies over. -/
def ParentUntouched (s : CoinsStack) (op : CoinsOp) : Prop :=
  opLayer op < s.caches.length ∧
    ∀ cache ∈ s.caches.take (opLayer op), ∀ txid entry,
      cache.cacheCoins.lookup txid = some entry → entry.dirty = false

/-- A record is modified only while no layer above has an entry for it, and a layer is flushed
only while the one above has no entry. -/
def NoCopyAbove (s : CoinsStack) : CoinsOp → Prop
  | .modifyCoins layer txid _ =>
    layer < s.caches.length ∧ ∀ cache ∈ s.caches.take layer, cache.cacheCoins.lookup txid = none
  | .flush layer =>
    ∀ cache, (s.caches.take layer).getLast? = some cache →
      ∀ txid, cache.cacheCoins.lookup txid = none
  | _ => True

/-- The edit of a modification does not read what a fully spent record was. -/
def EditsAlike : CoinsOp → Prop
  | .modifyCoins _ _ edit => SpentAlike edit
  | _ => True

/-- The stack is coherent and its top shows the flat map. -/
structure Simulates (s : CoinsStack) (view : FlatCoins) : Prop where
  coherent : Coherent s.base s.caches
  shown : ∀ txid, shown s.base txid s.caches = view.get txid

/-- What a run ends in: a stack whose reads at the top give what `view` has, and whose
database holds `view` when all layers are flushed. -/
def ReadsAs (result : Option CoinsStack) (view : FlatCoins) : Prop :=
  ∃ s, result = some s ∧
    (∀ txid,
      (s.getCoins 0 txid).1.bind CCoins.visible = view.get txid ∧
      (s.accessCoins 0 txid).1.bind CCoins.visible = view.get txid ∧
      (s.haveCoins 0 txid).1 = (view.get txid).isSome) ∧
    ∃ t, s.flushAll = some t ∧ ∀ txid, (t.base.getCoins txid).bind CCoins.visible = view.get txid

theorem coherent_lower {base : CCoinsViewDB} {upper lower : List CCoinsViewCache}
    (h : Coherent base (upper ++ lower)) : Coherent base lower := by
  induction upper with
  | nil => exact h
  | cons cache upper ih => exact ih h.2

section

variable (sim : Simulates s view)
include sim

/-- A read at any layer leaves the simulation as it is. -/
theorem simulates_getCoins (layer : Nat) (txid : UInt256) :
    Simulates (s.getCoins layer txid).2 view ∧
      (s.getCoins layer txid).2.caches.length = s.caches.length := by
  have coherent := sim.coherent
  rw [← List.take_append_drop layer s.caches] at coherent
  obtain ⟨filled, -, -⟩ := fetch_spec txid (coherent_lower coherent)
  have split : ∀ key, CoinsStack.shown s.base key
      (s.caches.take layer ++ s.caches.drop layer) = view.get key := by
    rw [List.take_append_drop]
    exact sim.shown
  refine ⟨⟨?_, fun key => ?_⟩, ?_⟩
  · exact coherent_append coherent filled.coherent (fun key _ => filled.shown key)
      (fun _ _ key _ => filled.holds key)
  · by_cases held : ∃ cache ∈ s.caches.take layer, cache.cacheCoins.lookup key ≠ none
    · exact (shown_append_of_lookup held).trans (split key)
    push Not at held
    have upper := split key
    rw [shown_append_of_lookup_none held] at upper
    exact (shown_append_of_lookup_none held).trans ((filled.shown key).trans upper)
  · simp only [getCoins, List.length_append, filled.length]
    rw [← List.length_append, List.take_append_drop]

theorem simulates_modifyCoins {layer : Nat} {txid : UInt256} {edit : CCoins → CCoins}
    (quiet : NoCopyAbove s (.modifyCoins layer txid edit)) (alike : SpentAlike edit) :
    ∃ t, s.apply (.modifyCoins layer txid edit) = some t ∧
      Simulates t (view.modifyCoins txid edit) ∧ t.caches.length = s.caches.length := by
  obtain ⟨inside, absent⟩ := quiet
  have coherent := sim.coherent
  rw [← List.take_append_drop layer s.caches] at coherent
  have nonempty : s.caches.drop layer ≠ [] := by simpa using inside
  obtain ⟨coherent', length, holds, shows⟩ :=
    modify_spec txid alike (coherent_lower coherent) nonempty
  have split : ∀ key, CoinsStack.shown s.base key
      (s.caches.take layer ++ s.caches.drop layer) = view.get key := by
    rw [List.take_append_drop]
    exact sim.shown
  have apart : ∀ key, (∃ cache ∈ s.caches.take layer, cache.cacheCoins.lookup key ≠ none) →
      key ≠ txid := by
    rintro key ⟨cache, member, held⟩ rfl
    exact held (absent cache member)
  refine ⟨_, rfl, ⟨?_, fun key => ?_⟩, ?_⟩
  · refine coherent_append coherent coherent' (fun key held => ?_) fun cache last key held => ?_
    · rw [shows, if_neg (apart key held)]
    · exact holds key (apart key ⟨cache, List.mem_of_getLast? last, held⟩)
  · rw [FlatCoins.get_modifyCoins]
    have below : CoinsStack.shown s.base txid (s.caches.drop layer) = view.get txid := by
      rw [← split, shown_append_of_lookup_none absent]
    by_cases held : ∃ cache ∈ s.caches.take layer, cache.cacheCoins.lookup key ≠ none
    · rw [if_neg (apart key held), ← split]
      exact shown_append_of_lookup held
    push Not at held
    rw [shown_append_of_lookup_none held, shows, below]
    by_cases equal : key = txid
    · rw [if_pos equal, if_pos equal, FlatCoins.record]
    · rw [if_neg equal, if_neg equal, ← split, shown_append_of_lookup_none held]
  · simp only [List.length_append, length]
    rw [← List.length_append, List.take_append_drop]

/-- A flush of a layer over which nothing is cached: the layer is empty afterwards. -/
theorem simulates_flush {layer : Nat} (quiet : NoCopyAbove s (.flush layer)) :
    ∃ t, s.apply (.flush layer) = some t ∧ Simulates t view ∧
      t.caches.length = s.caches.length ∧ t.caches.take layer = s.caches.take layer ∧
      ∀ cache, t.caches[layer]? = some cache → cache.cacheCoins = ∅ := by
  have coherent := sim.coherent
  rw [← List.take_append_drop layer s.caches] at coherent
  obtain ⟨lower, base', flushed, coherent', length, emptied, shows⟩ :=
    flushTop_spec (coherent_lower coherent)
  have split : ∀ key, CoinsStack.shown s.base key
      (s.caches.take layer ++ s.caches.drop layer) = view.get key := by
    rw [List.take_append_drop]
    exact sim.shown
  refine ⟨⟨s.caches.take layer ++ lower, base'⟩, by simp [CoinsStack.apply, flushed],
    ⟨?_, fun key => ?_⟩, ?_, ?_, ?_⟩
  · exact coherent_append coherent coherent' (fun key _ => shows key)
      fun cache last key held => absurd (quiet cache last key) held
  · rw [← split]
    by_cases held : ∃ cache ∈ s.caches.take layer, cache.cacheCoins.lookup key ≠ none
    · exact shown_append_of_lookup held
    · push Not at held
      rw [shown_append_of_lookup_none held, shown_append_of_lookup_none held, shows]
  · rw [List.length_append, length, ← List.length_append, List.take_append_drop]
  · rcases Nat.lt_or_ge s.caches.length layer with short | long
    · have none : lower = [] := by
        rw [← List.length_eq_zero_iff, length, List.length_drop]
        omega
      simp [none, List.take_take]
    · rw [List.take_append_of_le_length (by simp [long]), List.take_take, Nat.min_self]
  · intro cache found
    rcases Nat.lt_or_ge layer s.caches.length with inside | outside
    · rw [List.getElem?_append_right (by rw [List.length_take]; omega), List.length_take,
        Nat.min_eq_left (by omega), Nat.sub_self, ← List.head?_eq_getElem?] at found
      exact emptied cache found
    rw [List.getElem?_eq_none (by
      rw [List.length_append, length, ← List.length_append, List.take_append_drop]
      exact outside)] at found
    cases found

/-- What one operation preserves. -/
theorem simulates_apply {op : CoinsOp} (quiet : NoCopyAbove s op) (alike : EditsAlike op) :
    ∃ t, s.apply op = some t ∧ Simulates t (view.step op) := by
  cases op with
  | getCoins layer txid => exact ⟨_, rfl, (simulates_getCoins sim layer txid).1⟩
  | accessCoins layer txid => exact ⟨_, rfl, (simulates_getCoins sim layer txid).1⟩
  | haveCoins layer txid => exact ⟨_, rfl, (simulates_getCoins sim layer txid).1⟩
  | modifyCoins layer txid edit =>
    obtain ⟨t, applied, sim', -⟩ := simulates_modifyCoins sim quiet alike
    exact ⟨t, applied, sim'⟩
  | flush layer =>
    obtain ⟨t, applied, sim', -⟩ := simulates_flush sim quiet
    exact ⟨t, applied, sim'⟩

/-- Reads at the top give the flat map's records. -/
theorem Simulates.reads (txid : UInt256) :
    (s.getCoins 0 txid).1.bind CCoins.visible = view.get txid ∧
      (s.accessCoins 0 txid).1.bind CCoins.visible = view.get txid ∧
      (s.haveCoins 0 txid).1 = (view.get txid).isSome := by
  obtain ⟨-, finds, held⟩ := fetch_spec txid sim.coherent
  rw [sim.shown] at finds
  refine ⟨finds, finds, ?_⟩
  simp only [haveCoins, getCoins, List.drop_zero]
  cases found : (fetch s.base txid s.caches).1 with
  | none =>
    rw [found] at finds
    simp [← finds]
  | some coins =>
    rw [found] at finds
    have cleaned := (held coins found).1
    rw [← finds]
    show (!coins.vout.isEmpty) = coins.visible.isSome
    rw [← cleaned.isPruned_eq, CCoins.visible]
    cases coins.isPruned <;> rfl

/-- Flushing the layers from the top down leaves the first ones empty. -/
theorem flush_range (count : Nat) :
    ∃ t, run step (some s) ((List.range count).map CoinsOp.flush) = some t ∧ Simulates t view ∧
      t.caches.length = s.caches.length ∧
      ∀ cache ∈ t.caches.take count, cache.cacheCoins = ∅ := by
  induction count with
  | zero => exact ⟨s, rfl, sim, rfl, by simp⟩
  | succ count ih =>
    obtain ⟨t, ran, simt, length, emptied⟩ := ih
    have quiet : NoCopyAbove t (.flush count) := by
      intro cache last txid
      rw [emptied cache (List.mem_of_getLast? last)]
      simp
    obtain ⟨t', applied, simt', length', upper, flushed⟩ := simulates_flush simt quiet
    refine ⟨t', ?_, simt', length'.trans length, fun cache member => ?_⟩
    · rw [List.range_succ, List.map_append, run_append, ran]
      exact applied
    rw [List.take_add_one, List.mem_append, upper] at member
    rcases member with member | member
    · exact emptied cache member
    · exact flushed cache (by simpa using member)

end

theorem shown_of_all_empty {base : CCoinsViewDB} (emptied : ∀ cache ∈ caches, cache.cacheCoins = ∅)
    (txid : UInt256) : shown base txid caches = (base.getCoins txid).bind CCoins.visible := by
  have absent : ∀ cache ∈ caches, cache.cacheCoins.lookup txid = none := fun cache member => by
    rw [emptied cache member]
    simp
  have : shown base txid (caches ++ []) = shown base txid [] := shown_append_of_lookup_none absent
  rwa [List.append_nil] at this

theorem Simulates.flushAll (sim : Simulates s view) :
    ∃ t, s.flushAll = some t ∧
      ∀ txid, (t.base.getCoins txid).bind CCoins.visible = view.get txid := by
  obtain ⟨t, ran, simt, length, emptied⟩ := flush_range sim s.caches.length
  rw [← length, List.take_length] at emptied
  exact ⟨t, ran, fun txid => by rw [← shown_of_all_empty emptied txid, simt.shown]⟩

theorem coherent_of_all_empty {base : CCoinsViewDB}
    (emptied : ∀ cache ∈ caches, cache.cacheCoins = ∅) : Coherent base caches := by
  induction caches with
  | nil => trivial
  | cons cache below ih =>
    refine ⟨fun txid entry found => ?_, ih fun other member => emptied other (by simp [member])⟩
    rw [emptied cache (by simp)] at found
    simp at found

end Esbcoin.CoinsStack

namespace Esbcoin

open StepRun CoinsStack

/-- The flat map a database is. -/
def CCoinsViewDB.flat (base : CCoinsViewDB) : FlatCoins where
  get txid := (base.getCoins txid).bind CCoins.visible
  cleaned {txid coins} h := by
    obtain ⟨stored, found, shows⟩ := Option.bind_eq_some_iff.mp h
    obtain ⟨-, rfl⟩ := CCoins.visible_eq_some.mp shows
    obtain ⟨raw, -, rfl⟩ := Option.map_eq_some_iff.mp found
    exact CCoins.cleaned_cleanup raw
  unspent {txid coins} h := by
    obtain ⟨stored, found, shows⟩ := Option.bind_eq_some_iff.mp h
    obtain ⟨pruned, rfl⟩ := CCoins.visible_eq_some.mp shows
    exact pruned

/-- A stack of caches reads as one flat map where records are modified only under no cached copy and
layers are flushed only under an empty one. No flush meets the assertion of `BatchWrite`. -/
theorem caches_readAs_flat (start : CoinsStack) (ops : List CoinsOp)
    (emptied : ∀ cache ∈ start.caches, cache.cacheCoins = ∅)
    (quiet : AllSteps step (fun s op => ∀ t, s = some t → NoCopyAbove t op ∧ EditsAlike op)
      (some start) ops) :
    ReadsAs (run step (some start) ops) (run FlatCoins.step start.base.flat ops) := by
  have simulated := AllSteps.history
    (I := fun first s => ∃ t, s = some t ∧ Simulates t (run FlatCoins.step start.base.flat first))
    ⟨start, rfl, coherent_of_all_empty emptied, shown_of_all_empty emptied⟩
    (by
      rintro first op ⟨t, reached, sim⟩ allowed
      rw [reached] at allowed ⊢
      obtain ⟨t', applied, sim'⟩ := simulates_apply sim (allowed t rfl).1 (allowed t rfl).2
      rw [run_append]
      exact ⟨t', applied, sim'⟩) quiet
  obtain ⟨t, reached, sim⟩ := simulated
  exact ⟨t, reached, sim.reads, sim.flushAll⟩

def sampleCoins (nHeight : Int) : CCoins := { vout := [⟨5, []⟩], nHeight }

def sampleStack : CoinsStack :=
  ⟨[{}, {}], { db := (∅ : AssocMap UInt256 CCoins).insert 7 (sampleCoins 5) }⟩

/-- Spend everything at the top, flush, write a record in the parent and read it at the top. -/
def sampleOps : List CoinsOp :=
  [.modifyCoins 0 7 fun coins => { coins with vout := [] }, .flush 0,
    .modifyCoins 1 9 fun _ => sampleCoins 6, .getCoins 0 9]

theorem sampleOps_readAs_flat :
    ReadsAs (run step (some sampleStack) sampleOps)
      (run FlatCoins.step sampleStack.base.flat sampleOps) := by
  refine caches_readAs_flat sampleStack sampleOps ?_ ⟨?_, ?_, ?_, ?_, trivial⟩
  · intro cache member
    simp only [sampleStack, List.mem_cons, List.not_mem_nil, or_false, or_self] at member
    rw [member]
  · rintro t reached
    obtain rfl := Option.some.inj reached
    exact ⟨⟨by decide, by simp⟩, fun a b _ => by simp [CCoins.equal, CCoins.isPruned]⟩
  · rintro t reached
    exact ⟨by simp [NoCopyAbove], trivial⟩
  · rintro t reached
    obtain rfl := Option.some.inj reached
    refine ⟨⟨by decide, fun cache member => ?_⟩, fun a b _ => CCoins.equal_refl _⟩
    obtain rfl := List.mem_singleton.mp member
    rfl
  · exact fun t _ => ⟨trivial, trivial⟩

/-- Leaving the parent of a cache alone is not enough: a record that the parent changes is stale at
the top, and an edit sees the height of a fully spent record. -/
theorem stale_copy_and_spent_record :
    (¬ ∀ (start : CoinsStack) (ops : List CoinsOp),
      (∀ cache ∈ start.caches, cache.cacheCoins = ∅) →
      AllSteps step (fun s op => ∀ t, s = some t → ParentUntouched t op ∧ EditsAlike op)
        (some start) ops →
      ReadsAs (run step (some start) ops) (run FlatCoins.step start.base.flat ops)) ∧
    ¬ ∀ (start : CoinsStack) (ops : List CoinsOp),
      (∀ cache ∈ start.caches, cache.cacheCoins = ∅) →
      AllSteps step (fun s op => ∀ t, s = some t → ParentUntouched t op ∧ NoCopyAbove t op)
        (some start) ops →
      ReadsAs (run step (some start) ops) (run FlatCoins.step start.base.flat ops) := by
  have emptied : ∀ cache ∈ sampleStack.caches, cache.cacheCoins = ∅ := by
    intro cache member
    simp only [sampleStack, List.mem_cons, List.not_mem_nil, or_false, or_self] at member
    rw [member]
  constructor
  · intro claim
    obtain ⟨s, reached, reads, -⟩ := claim sampleStack
      [.getCoins 0 7, .modifyCoins 1 7 fun _ => CCoins.clear] emptied (by
        refine ⟨?_, ?_, trivial⟩
        · rintro t reached
          obtain rfl := Option.some.inj reached
          exact ⟨⟨by decide, by simp [opLayer]⟩, trivial⟩
        rintro t reached
        obtain rfl := Option.some.inj reached
        refine ⟨⟨by decide, fun cache member txid entry found => ?_⟩,
          fun a b _ => CCoins.equal_refl _⟩
        obtain rfl := List.mem_singleton.mp member
        have fetched : ((∅ : CCoinsMap).insert 7 { coins := sampleCoins 5 }).lookup txid =
            some entry := found
        rw [AssocMap.lookup_insert_eq] at fetched
        split at fetched
        · obtain rfl := Option.some.inj fetched
          rfl
        · simp at fetched)
    obtain rfl := Option.some.inj reached
    exact absurd (reads 7).1 (by decide)
  · intro claim
    obtain ⟨s, reached, reads, -⟩ := claim sampleStack
      [.modifyCoins 0 7 fun coins => { coins with vout := [] },
        .modifyCoins 0 7 fun coins => { coins with vout := [⟨5, []⟩] }] emptied (by
        refine ⟨?_, ?_, trivial⟩ <;>
        · rintro t reached
          obtain rfl := Option.some.inj reached
          exact ⟨⟨by decide, by simp [opLayer]⟩, ⟨by decide, by simp⟩⟩)
    obtain rfl := Option.some.inj reached
    exact absurd (reads 7).1 (by decide)

end Esbcoin
