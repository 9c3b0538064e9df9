import Mathlib.Algebra.GroupWithZero.Nat
import Mathlib.Data.List.AList

/-!
# Association maps

`AssocMap K V` is Mathlib's association list with non-dependent values. Added
here are the operations of an ordered or hashed map of an imperative program
that Mathlib does not have: insertion that keeps an existing entry, the
erase-while-iterating loop (`retain`), and a loop over all entries that changes
the map under the visited key only (`forEach`), each with the lookup law that
proofs use in place of the definition.
-/

universe u v w

/-- A map with its entries in a list. -/
abbrev AssocMap (K : Type u) (V : Type v) := AList (fun _ : K => V)

namespace AssocMap

variable {K : Type u} {V : Type v} {W : Type w} [DecidableEq K]

/-- Is there an entry under `k`? -/
def contains (m : AssocMap K V) (k : K) : Bool := (m.lookup k).isSome

/-- `std::map::insert`: an entry that is there stays. -/
def insertNew (m : AssocMap K V) (k : K) (v : V) : AssocMap K V :=
  match m.lookup k with
  | some _ => m
  | none => m.insert k v

/-- Change the entry under `k`, if there is one. -/
def modify (m : AssocMap K V) (k : K) (f : V → V) : AssocMap K V :=
  match m.lookup k with
  | some v => m.insert k (f v)
  | none => m

/-- Insert `v` under all the given keys that have no entry. -/
def insertNewAll (m : AssocMap K V) (keys : List K) (v : V) : AssocMap K V :=
  keys.foldl (fun m k => m.insertNew k v) m

/-- Keep the entries that satisfy `p`. -/
def retain (m : AssocMap K V) (p : K → V → Bool) : AssocMap K V where
  entries := m.entries.filter (fun e => p e.1 e.2)
  nodupKeys := m.nodupKeys.sublist List.filter_sublist

/-- All values changed, the keys kept. -/
def mapValues (m : AssocMap K V) (f : V → W) : AssocMap K W where
  entries := m.entries.map fun e => ⟨e.1, f e.2⟩
  nodupKeys := by
    have keys : (m.entries.map fun e => (⟨e.1, f e.2⟩ : Sigma fun _ : K => W)).keys =
        m.entries.keys := by
      rw [List.keys, List.keys, List.map_map]
      rfl
    rw [List.NodupKeys, keys]
    exact m.nodupKeys

/-- Erases several keys. -/
def eraseAll (m : AssocMap K V) (keys : List K) : AssocMap K V :=
  keys.foldl (fun m k => m.erase k) m

/-- How many entries there are. -/
def size (m : AssocMap K V) : Nat := m.entries.length

theorem contains_iff (m : AssocMap K V) (k : K) :
    m.contains k = true ↔ ∃ v, m.lookup k = some v := by
  simp [contains, Option.isSome_iff_exists]

theorem contains_eq_false_iff (m : AssocMap K V) (k : K) :
    m.contains k = false ↔ m.lookup k = none := by
  simp [contains]

theorem lookup_insert_eq (m : AssocMap K V) (k k' : K) (v : V) :
    (m.insert k v).lookup k' = if k' = k then some v else m.lookup k' := by
  by_cases h : k' = k
  · subst h; simp
  · simp [h, AList.lookup_insert_ne h]

variable {v : V} {k : K}

/-- What is found behind an insertion is the new entry or an old one. -/
theorem of_lookup_insert {m : AssocMap K V} {k' : K} {v' : V}
    (found : AList.lookup k' (m.insert k v) = some v') :
    k' = k ∧ v' = v ∨ m.lookup k' = some v' := by
  rw [lookup_insert_eq] at found
  by_cases own : k' = k
  · rw [if_pos own] at found
    exact Or.inl ⟨own, (Option.some.inj found).symm⟩
  · rw [if_neg own] at found
    exact Or.inr found

/-- An entry under a new key leaves the others. -/
theorem lookup_insert_fresh {m : AssocMap K V} {k' : K} {v' : V} (fresh : m.lookup k = none)
    (found : m.lookup k' = some v') : AList.lookup k' (m.insert k v) = some v' := by
  rw [AList.lookup_insert_ne, found]
  rintro rfl
  rw [fresh] at found
  cases found

section

variable (m : AssocMap K V)

theorem lookup_erase_eq (k k' : K) :
    (m.erase k).lookup k' = if k' = k then none else m.lookup k' := by
  by_cases h : k' = k
  · subst h; simp
  · simp [h, AList.lookup_erase_ne h]

theorem size_eq_zero_iff : m.size = 0 ↔ ∀ k, m.lookup k = none := by
  constructor
  · intro empty k
    rw [AList.lookup_eq_none, AList.mem_keys, AList.keys, List.length_eq_zero_iff.mp empty]
    exact List.not_mem_nil
  intro none
  refine List.length_eq_zero_iff.mpr (List.eq_nil_iff_forall_not_mem.mpr fun e member => ?_)
  have found := AList.mem_lookup_iff.mpr (show ⟨e.1, e.2⟩ ∈ m.entries from member)
  rw [none e.1] at found
  cases found

theorem lookup_insertNew (k k' : K) (v : V) :
    (m.insertNew k v).lookup k' = if k' = k then some ((m.lookup k).getD v) else m.lookup k' := by
  unfold insertNew
  cases h : m.lookup k with
  | some old =>
    by_cases equal : k' = k
    · subst equal; simp [h]
    · simp [equal]
  | none => simp [lookup_insert_eq]

theorem lookup_modify (k k' : K) (f : V → V) :
    (m.modify k f).lookup k' = if k' = k then (m.lookup k).map f else m.lookup k' := by
  unfold modify
  cases h : m.lookup k with
  | some v => simp [lookup_insert_eq]
  | none =>
    by_cases equal : k' = k
    · subst equal; simp [h]
    · simp [equal]

/-! ## Maps with at least the keys of another -/

theorem contains_insert (k k' : K) (v : V) :
    AssocMap.contains (m.insert k v) k' = (decide (k' = k) || m.contains k') := by
  unfold contains
  rw [lookup_insert_eq]
  by_cases equal : k' = k <;> simp [equal]

theorem contains_erase (k k' : K) :
    AssocMap.contains (m.erase k) k' = (!decide (k' = k) && m.contains k') := by
  unfold contains
  rw [lookup_erase_eq]
  by_cases equal : k' = k <;> simp [equal]

theorem contains_insertNew (k k' : K) (v : V) :
    (m.insertNew k v).contains k' = (decide (k' = k) || m.contains k') := by
  unfold contains
  rw [lookup_insertNew]
  by_cases equal : k' = k <;> simp [equal]

theorem contains_modify (k k' : K) (f : V → V) :
    (m.modify k f).contains k' = m.contains k' := by
  unfold contains
  rw [lookup_modify]
  by_cases equal : k' = k
  · subst equal
    rw [if_pos rfl, Option.isSome_map]
  · rw [if_neg equal]

end

/-- Every key of `m'` is a key of `m`. -/
def Covers (m m' : AssocMap K V) : Prop := ∀ k, m'.contains k = true → m.contains k = true

variable {m m' : AssocMap K V}

theorem Covers.refl (m : AssocMap K V) : m.Covers m := fun _ => id

section

variable (covers : m.Covers m')
include covers

theorem Covers.insert (k : K) (v v' : V) :
    AssocMap.Covers (m.insert k v) (m'.insert k v') := by
  intro k' inside
  rw [contains_insert, Bool.or_eq_true] at inside ⊢
  exact inside.imp id (covers k')

theorem Covers.insert_left (k : K) (v : V) :
    AssocMap.Covers (m.insert k v) m' := by
  intro k' inside
  rw [contains_insert, Bool.or_eq_true]
  exact Or.inr (covers k' inside)

theorem Covers.insertNew (k : K) (v : V) :
    (m.insertNew k v).Covers (m'.insertNew k v) := by
  intro k' inside
  rw [contains_insertNew, Bool.or_eq_true] at inside ⊢
  exact inside.imp id (covers k')

theorem Covers.erase (k : K) :
    AssocMap.Covers (m.erase k) (m'.erase k) := by
  intro k' inside
  rw [contains_erase, Bool.and_eq_true] at inside ⊢
  exact inside.imp id (covers k')

theorem Covers.erase_left (absent : m'.contains k = false) :
    AssocMap.Covers (m.erase k) m' := by
  intro k' inside
  rw [contains_erase, Bool.and_eq_true, Bool.not_eq_true', decide_eq_false_iff_not]
  refine ⟨?_, covers k' inside⟩
  rintro rfl
  rw [absent] at inside
  cases inside

theorem Covers.modify (k : K) (f : V → V) :
    (m.modify k f).Covers (m'.modify k f) := by
  intro k' inside
  rw [contains_modify] at inside ⊢
  exact covers k' inside

end

theorem lookup_insertNewAll (m : AssocMap K V) (keys : List K) (v : V) (k : K) :
    (m.insertNewAll keys v).lookup k =
      if k ∈ keys then some ((m.lookup k).getD v) else m.lookup k := by
  induction keys generalizing m with
  | nil => simp [insertNewAll]
  | cons key keys ih =>
    have step : m.insertNewAll (key :: keys) v = (m.insertNew key v).insertNewAll keys v := rfl
    rw [step, ih, lookup_insertNew]
    by_cases equal : k = key
    · subst equal
      simp
    · simp [equal]

theorem of_lookup_insertNewAll {m : AssocMap K V} {keys : List K} {w : V}
    (found : (m.insertNewAll keys v).lookup k = some w) :
    m.lookup k = some w ∨ m.lookup k = none ∧ k ∈ keys ∧ w = v := by
  rw [lookup_insertNewAll] at found
  cases old : m.lookup k with
  | some value =>
    left
    split at found
    · simpa [old] using found
    · exact old ▸ found
  | none =>
    right
    split at found
    · rename_i member
      exact ⟨rfl, member, by simpa [old] using found.symm⟩
    · rw [old] at found
      cases found

theorem lookup_retain (m : AssocMap K V) (p : K → V → Bool) (k : K) :
    (m.retain p).lookup k = (m.lookup k).filter (p k) := by
  ext v
  rw [← Option.mem_def, AList.mem_lookup_iff]
  simp only [retain, List.mem_filter, Option.filter_eq_some_iff]
  rw [← AList.mem_lookup_iff, Option.mem_def]

theorem lookup_mapValues (m : AssocMap K V) (f : V → W) (k : K) :
    (m.mapValues f).lookup k = (m.lookup k).map f := by
  show List.dlookup k (m.entries.map fun e => (⟨e.1, f e.2⟩ : Sigma fun _ : K => W)) =
    (List.dlookup k m.entries).map f
  induction m.entries with
  | nil => rfl
  | cons e entries ih =>
    obtain ⟨key, value⟩ := e
    by_cases equal : k = key
    · subst equal
      rw [List.map_cons, List.dlookup_cons_eq, List.dlookup_cons_eq, Option.map_some]
    · rw [List.map_cons, List.dlookup_cons_ne _ _ equal, List.dlookup_cons_ne _ _ equal, ih]

theorem lookup_eraseAll (m : AssocMap K V) (keys : List K) (k : K) :
    (m.eraseAll keys).lookup k = if k ∈ keys then none else m.lookup k := by
  induction keys generalizing m with
  | nil => simp [eraseAll]
  | cons key keys ih =>
    have step : m.eraseAll (key :: keys) = AssocMap.eraseAll (m.erase key) keys := rfl
    rw [step, ih, lookup_erase_eq]
    by_cases h : k ∈ keys
    · simp [h]
    · by_cases hk : k = key <;> simp [h, hk]

/-- The sum of a measure over the entries. -/
def total (m : AssocMap K V) (f : K → V → Nat) : Nat := (m.entries.map fun e => f e.1 e.2).sum

/-- An entry found can be moved to the front. -/
theorem perm_of_lookup {m : AssocMap K V} (found : m.lookup k = some v) :
    m.entries.Perm (⟨k, v⟩ :: (m.erase k).entries) := by
  have member : k ∈ m.keys := AList.mem_keys.mp (AList.lookup_isSome.mp (by simp [found]))
  obtain ⟨w, before, after, fresh, split, erased⟩ := List.exists_of_kerase member
  have same : v = w := by
    have here : List.dlookup k m.entries = some v := found
    rw [split, List.dlookup_append, List.dlookup_eq_none.mpr fresh, List.dlookup_cons_eq] at here
    simpa using here.symm
  subst same
  have rest : (m.erase k).entries = before ++ after := erased
  rw [rest, split]
  exact List.perm_middle

theorem size_erase {m : AssocMap K V} (found : m.lookup k = some v) :
    AssocMap.size (m.erase k) + 1 = m.size := by
  rw [size, size, (perm_of_lookup found).length_eq, List.length_cons]

theorem total_erase {m : AssocMap K V} (found : m.lookup k = some v) (f : K → V → Nat) :
    AssocMap.total (m.erase k) f + f k v = m.total f := by
  rw [total, total, ((perm_of_lookup found).map _).sum_nat, List.map_cons, List.sum_cons,
    Nat.add_comm]

theorem size_insert (m : AssocMap K V) (k : K) (v : V) :
    AssocMap.size (m.insert k v) = AssocMap.size (m.erase k) + 1 := by
  rw [size, AList.entries_insert, List.length_cons]
  rfl

theorem total_insert (m : AssocMap K V) (k : K) (v : V) (f : K → V → Nat) :
    AssocMap.total (m.insert k v) f = AssocMap.total (m.erase k) f + f k v := by
  rw [total, AList.entries_insert, List.map_cons, List.sum_cons, Nat.add_comm]
  rfl

theorem erase_of_absent {m : AssocMap K V} (absent : m.lookup k = none) : m.erase k = m := by
  apply AList.ext
  exact List.kerase_of_notMem_keys (AList.lookup_eq_none.mp absent)

/-- Visit every entry of `m`, changing another map that `update` touches under
the visited key only; `none` is an assertion that failed. -/
def forEach (m : AssocMap K V) (update : K → V → AssocMap K W → Option (AssocMap K W))
    (target : AssocMap K W) : Option (AssocMap K W) :=
  m.entries.foldlM (fun target e => update e.1 e.2 target) target

/-- The lookup law of `forEach`: if `update` acts on the entry under the key by `change`, the loop
acts so on every visited key. -/
theorem forEach_lookup {update : K → V → AssocMap K W → Option (AssocMap K W)}
    {change : K → V → Option W → Option W} (m : AssocMap K V) (target : AssocMap K W)
    (acts : ∀ k v (t : AssocMap K W), m.lookup k = some v → t.lookup k = target.lookup k →
      ∃ t', update k v t = some t' ∧
        ∀ k', t'.lookup k' = if k' = k then change k v (t.lookup k) else t.lookup k') :
    ∃ result, m.forEach update target = some result ∧ ∀ k, result.lookup k = match m.lookup k with
        | some v => change k v (target.lookup k)
        | none => target.lookup k := by
  have main : ∀ (entries : List (Sigma fun _ : K => V)) (t : AssocMap K W),
      entries.NodupKeys → (∀ e ∈ entries, m.lookup e.1 = some e.2) →
      (∀ e ∈ entries, t.lookup e.1 = target.lookup e.1) →
      ∃ result, entries.foldlM (fun t e => update e.1 e.2 t) t = some result ∧
        ∀ k, result.lookup k = match List.dlookup k entries with
          | some v => change k v (t.lookup k)
          | none => t.lookup k := by
    intro entries
    induction entries with
    | nil => intro t _ _ _; exact ⟨t, rfl, fun k => by simp⟩
    | cons e entries ih =>
      intro t nodup inMap same
      obtain ⟨fresh, nodup'⟩ := List.nodupKeys_cons.mp nodup
      obtain ⟨t', hstep, hlook⟩ :=
        acts e.1 e.2 t (inMap e (by simp)) (same e (by simp))
      have apart : ∀ e' ∈ entries, e'.1 ≠ e.1 := by
        intro e' member equal
        exact fresh (equal ▸ List.mem_keys_of_mem member)
      obtain ⟨result, hfold, hres⟩ := ih t' nodup'
        (fun e' member => inMap e' (List.mem_cons_of_mem _ member))
        (fun e' member => by
          rw [hlook, if_neg (apart e' member)]
          exact same e' (List.mem_cons_of_mem _ member))
      refine ⟨result, by simp [hstep, hfold], fun k => ?_⟩
      rw [hres, hlook]
      obtain ⟨key, value⟩ := e
      by_cases equal : k = key
      · subst equal
        have absent : List.dlookup k entries = none := List.dlookup_eq_none.mpr fresh
        simp [absent]
      · rw [List.dlookup_cons_ne _ _ equal]
        simp [equal]
  obtain ⟨result, hfold, hres⟩ := main m.entries target m.nodupKeys
    (fun e member => AList.mem_lookup_iff.mpr member) (fun _ _ => rfl)
  exact ⟨result, hfold, hres⟩

end AssocMap
