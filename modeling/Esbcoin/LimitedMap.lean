import Mathlib.Data.List.Sort
import Esbcoin.Lib.AssocMap
import Esbcoin.Lib.StepRun

/-!
# Maps of a limited size

Rendering of `limitedmap` (`src/limitedmap.h`). The iterators of `rmap` are the keys that they point
at.
-/

namespace Esbcoin

open StepRun AssocMap List

/-- The fields of `limitedmap` (`limitedmap.h:23-28`). -/
structure LimitedMap (K V : Type) where
  map : AssocMap K V
  rmap : List (V × K)
  nMaxSize : Nat

/-- The calls that change a limited map. -/
inductive LimitedMapCall (K V : Type) where
  | insert (k : K) (v : V)
  | erase (k : K)
  | update (k : K) (v : V)
  | max_size (s : Nat)

namespace LimitedMap

variable {K V : Type} [DecidableEq K] [LinearOrder V]

/-- The constructor (`limitedmap.h:31`). -/
def start (nMaxSizeIn : Nat) : LimitedMap K V := { map := ∅, rmap := [], nMaxSize := nMaxSizeIn }

/-- `std::multimap::insert`: behind the elements that are not above the new one. -/
def link (v : V) (k : K) (rmap : List (V × K)) : List (V × K) :=
  rmap.orderedInsert (fun a b => a.1 < b.1) (v, k)

/-- Look for an iterator among those of a value and erase it; `none` is `assert(0)`. -/
def unlink (v : V) (k : K) (rmap : List (V × K)) : Option (List (V × K)) :=
  if (v, k) ∈ rmap then some (rmap.erase (v, k)) else none

/-- Erase what `rmap.begin()` points at (`limitedmap.h:43-44`); `none` reads `rmap.end()`. -/
def evict (s : LimitedMap K V) : Option (LimitedMap K V) :=
  match s.rmap with
  | [] => none
  | (_, k) :: rmap => some { s with map := s.map.erase k, rmap }

/-- `while (map.size() > s)` (`limitedmap.h:93-96`), for so many turns. -/
def shrink (limit : Nat) : Nat → LimitedMap K V → Option (LimitedMap K V)
  | 0, s => some s
  | fuel + 1, s => if s.map.size > limit then s.evict.bind (shrink limit fuel) else some s

/-- `insert`, `erase`, `update` and `max_size` (`limitedmap.h:38-99`). -/
def step (s : LimitedMap K V) : LimitedMapCall K V → Option (LimitedMap K V)
  | .insert k v =>
    if s.map.contains k then some s
    else
      let inserted := { s with map := s.map.insert k v }
      let evicted :=
        if s.nMaxSize ≠ 0 ∧ inserted.map.size = s.nMaxSize then inserted.evict else some inserted
      evicted.map fun s => { s with rmap := link v k s.rmap }
  | .erase k =>
    match s.map.lookup k with
    | none => some s
    | some v => (unlink v k s.rmap).map fun rmap => { s with map := s.map.erase k, rmap }
  | .update k v =>
    match s.map.lookup k with
    | none => some s
    | some old =>
      (unlink old k s.rmap).map fun rmap => { s with map := s.map.insert k v, rmap := link v k rmap }
  | .max_size limit =>
    (if limit ≠ 0 then shrink limit s.map.size s else some s).map fun s =>
      { s with nMaxSize := limit }

/-! ## What the map is for -/

/-- `rmap` lists the entries of the map by their values, each once. -/
structure Inverse (map : AssocMap K V) (rmap : List (V × K)) : Prop where
  sorted : rmap.Pairwise fun a b => a.1 ≤ b.1
  nodup : rmap.Nodup
  mem : ∀ v k, (v, k) ∈ rmap ↔ map.lookup k = some v

/-- The map behind a call if there were no limit. -/
def offered (map : AssocMap K V) : LimitedMapCall K V → AssocMap K V
  | .insert k v => map.insertNew k v
  | .erase k => map.erase k
  | .update k v => map.modify k fun _ => v
  | .max_size _ => map

/-- The limit behind a call. -/
def limitAfter (s : LimitedMap K V) : LimitedMapCall K V → Nat
  | .max_size limit => limit
  | _ => s.nMaxSize

/-- The entries of highest value that are offered, as many as the limit allows. -/
structure Highest (limit : Nat) (offered kept : AssocMap K V) : Prop where
  sub : ∀ k v, kept.lookup k = some v → offered.lookup k = some v
  size : kept.size = if limit = 0 then offered.size else min limit offered.size
  high : ∀ k v k' v', offered.lookup k = some v → kept.lookup k = none →
    kept.lookup k' = some v' → v ≤ v'

/-- The call returns, and leaves the highest of what it is offered. -/
def Keeps (s : Option (LimitedMap K V)) (call : LimitedMapCall K V) : Prop :=
  ∀ before, s = some before → ∃ after, before.step call = some after ∧
    after.nMaxSize = before.limitAfter call ∧
    Highest (before.limitAfter call) (offered before.map call) after.map

/-- A new key leaves room below the limit. -/
def HasRoom (s : Option (LimitedMap K V)) (call : LimitedMapCall K V) : Prop :=
  ∀ before k v, s = some before → call = .insert k v → before.map.lookup k = none →
    before.nMaxSize = 0 ∨ before.map.size + 1 < before.nMaxSize

/-! ## One call -/

variable {map map' : AssocMap K V} {rmap : List (V × K)} {s s' : LimitedMap K V} {k : K} {v : V}

theorem Inverse.unlink (inverse : Inverse map rmap) (found : map.lookup k = some v) :
    unlink v k rmap = some (rmap.erase (v, k)) ∧ Inverse (map.erase k) (rmap.erase (v, k)) := by
  refine ⟨if_pos ((inverse.mem v k).mpr found), inverse.sorted.sublist erase_sublist,
    inverse.nodup.erase _, fun w l => ?_⟩
  rw [inverse.nodup.mem_erase_iff, inverse.mem, lookup_erase_eq]
  by_cases same : l = k
  · subst same
    rw [if_pos rfl, found]
    simp [eq_comm]
  · simp [same]

omit [DecidableEq K] in
theorem pairwise_link (sorted : rmap.Pairwise fun a b => a.1 ≤ b.1) :
    (link v k rmap).Pairwise fun a b => a.1 ≤ b.1 := by
  induction rmap with
  | nil => exact pairwise_singleton _ _
  | cons first rmap ih =>
    obtain ⟨low, rest⟩ := pairwise_cons.mp sorted
    rw [link, orderedInsert_cons]
    split
    · rename_i below
      refine pairwise_cons.mpr ⟨fun other member => ?_, sorted⟩
      rcases mem_cons.mp member with rfl | member
      · exact below.le
      · exact below.le.trans (low other member)
    rename_i above
    refine pairwise_cons.mpr ⟨fun other member => ?_, ih rest⟩
    rcases (mem_orderedInsert _).mp member with rfl | member
    · exact not_lt.mp above
    · exact low other member

theorem Inverse.link (inverse : Inverse map rmap) (fresh : map.lookup k = none) :
    Inverse (map.insert k v) (link v k rmap) := by
  have perm : (LimitedMap.link v k rmap).Perm ((v, k) :: rmap) := perm_orderedInsert _ _ _
  have new : (v, k) ∉ rmap := fun member => by
    rw [inverse.mem, fresh] at member
    cases member
  refine ⟨?_, perm.nodup_iff.mpr (nodup_cons.mpr ⟨new, inverse.nodup⟩), fun w l => ?_⟩
  · exact pairwise_link inverse.sorted
  rw [perm.mem_iff, mem_cons, inverse.mem, lookup_insert_eq]
  by_cases same : l = k
  · subst same
    rw [if_pos rfl, fresh]
    simp [eq_comm]
  · simp [same]

theorem Inverse.congr (inverse : Inverse map rmap) (same : ∀ l, map'.lookup l = map.lookup l) :
    Inverse map' rmap :=
  { inverse with mem := fun w l => by rw [inverse.mem, same] }

/-- An entry of lowest value is evicted. -/
theorem evict_spec (inverse : Inverse s.map s.rmap) (some_entry : 0 < s.map.size) :
    ∃ v k, s.map.lookup k = some v ∧
      s.evict = some { s with map := s.map.erase k, rmap := s.rmap.erase (v, k) } ∧
      ∀ l w, s.map.lookup l = some w → v ≤ w := by
  obtain ⟨map, rmap, nMaxSize⟩ := s
  cases rmap with
  | nil =>
    have empty : map.size = 0 := (size_eq_zero_iff map).mpr fun k => by
      rw [Option.eq_none_iff_forall_ne_some]
      intro v found
      cases (inverse.mem v k).mpr found
    exact absurd empty (Nat.ne_of_gt some_entry)
  | cons first rmap =>
    obtain ⟨v, k⟩ := first
    refine ⟨v, k, (inverse.mem v k).mp mem_cons_self, ?_, fun l w found => ?_⟩
    · rw [erase_cons_head]
      rfl
    · rcases mem_cons.mp ((inverse.mem w l).mpr found) with same | member
      · exact le_of_eq (Prod.mk.inj same).1.symm
      · exact (pairwise_cons.mp inverse.sorted).1 (w, l) member

theorem Highest.refl {limit : Nat} (map : AssocMap K V) (fits : limit = 0 ∨ map.size ≤ limit) :
    Highest limit map map where
  sub _ _ := id
  size := by
    split <;> omega
  high k v _ _ found absent _ := by
    rw [absent] at found
    cases found

theorem shrink_spec {limit fuel : Nat} (inverse : Inverse s.map s.rmap) (positive : 0 < limit)
    (enough : s.map.size ≤ limit + fuel) :
    ∃ s', shrink limit fuel s = some s' ∧ Inverse s'.map s'.rmap ∧ Highest limit s.map s'.map := by
  induction fuel generalizing s with
  | zero => exact ⟨s, rfl, inverse, .refl _ (.inr enough)⟩
  | succ fuel ih =>
    rw [shrink]
    by_cases many : s.map.size > limit
    · obtain ⟨v, k, found, evicted, low⟩ := evict_spec inverse (by omega)
      have size := size_erase found
      obtain ⟨s', shrunk, inverse', best⟩ := @ih { s with map := s.map.erase k, rmap := _ }
        (inverse.unlink found).2 (show AssocMap.size (s.map.erase k) ≤ _ by omega)
      have inside : ∀ l w, s'.map.lookup l = some w → s.map.lookup l = some w := by
        intro l w here
        have here : AList.lookup l (s.map.erase k) = some w := best.sub l w here
        rw [lookup_erase_eq] at here
        split at here
        · cases here
        · exact here
      rw [if_pos many, evicted]
      refine ⟨s', shrunk, inverse', inside, ?_, fun l w l' w' here gone there => ?_⟩
      · have left := best.size
        rw [if_neg (by omega)] at left ⊢
        change s'.map.size = min limit (AssocMap.size (s.map.erase k)) at left
        omega
      by_cases same : l = k
      · subst same
        obtain rfl := Option.some.inj (found.symm.trans here)
        exact low l' w' (inside l' w' there)
      · refine best.high l w l' w' ?_ gone there
        rw [lookup_erase_eq, if_neg same, here]
    · rw [if_neg many]
      exact ⟨s, rfl, inverse, .refl _ (.inr (by omega))⟩

/-- Without an eviction a new entry is added; with one the map stays as large as it was. -/
theorem step_insert (inverse : Inverse s.map s.rmap) (fresh : s.map.lookup k = none)
    (step : s.step (.insert k v) = some s') :
    Inverse s'.map s'.rmap ∧ s'.nMaxSize = s.nMaxSize ∧
      if s.nMaxSize ≠ 0 ∧ s.map.size + 1 = s.nMaxSize then s'.map.size = s.map.size
      else s'.map = s.map.insert k v := by
  have size : AssocMap.size (s.map.insert k v) = s.map.size + 1 := by
    rw [AssocMap.size_insert, erase_of_absent fresh]
  have new : s.map.contains k = false := (contains_eq_false_iff _ _).mpr fresh
  obtain ⟨map, rmap, nMaxSize⟩ := s
  simp only [LimitedMap.step, new, Bool.false_eq_true, if_false, size] at step ⊢
  split at step
  · rename_i full
    rw [if_pos full]
    cases rmap with
    | nil => cases step
    | cons first rmap =>
      obtain ⟨v₀, k₀⟩ := first
      obtain rfl := Option.some.inj step
      have found := (inverse.mem v₀ k₀).mp mem_cons_self
      have other : k₀ ≠ k := by
        rintro rfl
        rw [fresh] at found
        cases found
      have there : (map.insert k v).lookup k₀ = some v₀ := lookup_insert_fresh fresh found
      have erased := size_erase there
      have left := (inverse.unlink found).2
      rw [erase_cons_head] at left
      refine ⟨(left.link ?_).congr fun l => ?_, rfl, ?_⟩
      · rw [lookup_erase_eq, fresh, ite_self]
      · simp only [lookup_erase_eq, lookup_insert_eq]
        split_ifs with first second
        · exact absurd (first.symm.trans second) other
        · rfl
        · rfl
        · rfl
      · show AssocMap.size ((map.insert k v).erase k₀) = map.size
        have same : AssocMap.size (map.insert k v) = map.size + 1 := size
        omega
  · rename_i full
    obtain rfl := Option.some.inj step
    rw [if_neg full]
    exact ⟨inverse.link fresh, rfl, rfl⟩

/-- No other call is limited by what `insert` does. -/
theorem step_other {call : LimitedMapCall K V} (inverse : Inverse s.map s.rmap)
    (other : ∀ k v, call = .insert k v → s.map.lookup k ≠ none) :
    ∃ s', s.step call = some s' ∧ Inverse s'.map s'.rmap ∧ s'.nMaxSize = s.limitAfter call ∧
      ((s.nMaxSize = 0 ∨ s.map.size ≤ s.nMaxSize) →
        Highest (s.limitAfter call) (offered s.map call) s'.map) := by
  cases call with
  | insert k v =>
    obtain ⟨old, found⟩ := Option.ne_none_iff_exists'.mp (other k v rfl)
    have there : s.map.contains k = true := (AssocMap.contains_iff _ _).mpr ⟨old, found⟩
    rw [step, if_pos there]
    refine ⟨s, rfl, inverse, rfl, fun fits => ?_⟩
    rw [offered, insertNew, found]
    exact .refl _ fits
  | erase k =>
    cases found : s.map.lookup k with
    | none =>
      simp only [step, found]
      refine ⟨s, rfl, inverse, rfl, fun fits => ?_⟩
      rw [offered, erase_of_absent found]
      exact .refl _ fits
    | some v =>
      obtain ⟨unlinked, left⟩ := inverse.unlink found
      have size := size_erase found
      simp only [step, found, unlinked, Option.map_some]
      refine ⟨_, rfl, left, rfl, fun fits => .refl _ (fits.imp_right fun below => ?_)⟩
      show AssocMap.size (s.map.erase k) ≤ s.nMaxSize
      omega
  | update k v =>
    cases found : s.map.lookup k with
    | none =>
      simp only [step, found]
      refine ⟨s, rfl, inverse, rfl, fun fits => ?_⟩
      rw [offered, AssocMap.modify, found]
      exact .refl _ fits
    | some old =>
      obtain ⟨unlinked, left⟩ := inverse.unlink found
      have size := size_erase found
      simp only [step, found, unlinked, Option.map_some]
      refine ⟨_, rfl, (left.link (v := v) ?_).congr fun l => ?_, rfl, fun fits => ?_⟩
      · rw [lookup_erase_eq, if_pos rfl]
      · simp only [lookup_insert_eq, lookup_erase_eq]
        split <;> rfl
      simp only [offered, AssocMap.modify, found]
      refine .refl _ (fits.imp_right fun below => ?_)
      rw [AssocMap.size_insert, size]
      exact below
  | max_size limit =>
    by_cases zero : limit = 0
    · subst zero
      exact ⟨_, rfl, inverse, rfl, fun _ => .refl _ (.inl rfl)⟩
    obtain ⟨s', shrunk, inverse', best⟩ :=
      shrink_spec inverse (Nat.pos_of_ne_zero zero) (Nat.le_add_left s.map.size limit)
    rw [step, if_pos zero, shrunk]
    exact ⟨_, rfl, inverse', rfl, fun _ => best⟩

theorem step_inverse {call : LimitedMapCall K V} (inverse : Inverse s.map s.rmap)
    (done : s.step call = some s') : Inverse s'.map s'.rmap := by
  by_cases fresh : ∃ k v, call = .insert k v ∧ s.map.lookup k = none
  · obtain ⟨k, v, rfl, fresh⟩ := fresh
    exact (step_insert inverse fresh done).1
  · obtain ⟨s'', done', inverse', -⟩ := @step_other K V _ _ s call inverse fun k v same absent =>
      fresh ⟨k, v, same, absent⟩
    exact Option.some.inj (done'.symm.trans done) ▸ inverse'

theorem keeps_iff {call : LimitedMapCall K V} (inverse : Inverse s.map s.rmap)
    (fits : s.nMaxSize = 0 ∨ s.map.size ≤ s.nMaxSize) :
    Keeps (some s) call ↔ HasRoom (some s) call := by
  by_cases fresh : ∃ k v, call = .insert k v ∧ s.map.lookup k = none
  · obtain ⟨k, v, rfl, fresh⟩ := fresh
    have size : AssocMap.size (s.map.insert k v) = s.map.size + 1 := by
      rw [AssocMap.size_insert, erase_of_absent fresh]
    have new : offered s.map (.insert k v) = s.map.insert k v := by
      rw [offered, insertNew, fresh]
    constructor
    · rintro keeps before k' v' ⟨⟩ ⟨⟩ -
      obtain ⟨after, done, -, best⟩ := keeps s rfl
      have kept := best.size
      obtain ⟨-, -, result⟩ := step_insert inverse fresh done
      rw [new, size] at kept
      change after.map.size = if s.nMaxSize = 0 then _ else min s.nMaxSize _ at kept
      split at result
      · split at kept <;> omega
      · rw [result, size] at kept
        split at kept <;> omega
    rintro room before ⟨⟩
    have room := room s k v rfl rfl fresh
    have absent : s.map.contains k = false := (contains_eq_false_iff _ _).mpr fresh
    have done : s.step (.insert k v) =
        some { s with map := s.map.insert k v, rmap := link v k s.rmap } := by
      simp only [step, absent, Bool.false_eq_true, if_false, size]
      rw [if_neg (by omega)]
      rfl
    refine ⟨_, done, rfl, ?_⟩
    rw [new]
    exact .refl _ (room.imp_right fun below => by rw [size]; exact below.le)
  · obtain ⟨s', done, -, limit, best⟩ := @step_other K V _ _ s call inverse fun k v same absent =>
      fresh ⟨k, v, same, absent⟩
    refine iff_of_true ?_ ?_
    · rintro before ⟨⟩
      exact ⟨s', done, limit, best fits⟩
    · rintro before k v ⟨⟩ same absent
      exact absurd ⟨k, v, same, absent⟩ fresh

/-- What holds in a run whose calls keep what they should. -/
def Sound (s : Option (LimitedMap K V)) : Prop :=
  ∀ here, s = some here →
    Inverse here.map here.rmap ∧ (here.nMaxSize = 0 ∨ here.map.size ≤ here.nMaxSize)

theorem Sound.step {s : Option (LimitedMap K V)} {call : LimitedMapCall K V} (sound : Sound s)
    (keeps : Keeps s call) : Sound (orFail LimitedMap.step s call) := by
  intro after reached
  cases s with
  | none => cases reached
  | some s =>
    obtain ⟨inverse, -⟩ := sound s rfl
    obtain ⟨s', done, limit, best⟩ := keeps s rfl
    obtain rfl := Option.some.inj (done.symm.trans reached)
    refine ⟨step_inverse inverse done, ?_⟩
    have size := best.size
    rw [limit]
    split at size
    · exact .inl ‹_›
    · exact .inr (by omega)

theorem sound_start (limit : Nat) : Sound (some (start limit : LimitedMap K V)) := by
  rintro here ⟨⟩
  exact ⟨⟨.nil, .nil, by simp [start]⟩, .inr (Nat.zero_le _)⟩

theorem keeps_iff_of_sound {s : Option (LimitedMap K V)} {call : LimitedMapCall K V}
    (sound : Sound s) : Keeps s call ↔ HasRoom s call := by
  cases s with
  | none => exact iff_of_true (by rintro s ⟨⟩) (by rintro s k v ⟨⟩)
  | some s => exact keeps_iff (sound s rfl).1 (sound s rfl).2

end LimitedMap

open LimitedMap in
/-- In every run every call returns and leaves the highest of what it is offered, as many as the
limit allows, exactly if every new key that is inserted leaves room below the limit. -/
theorem limitedMap_keeps_iff {K V : Type} [DecidableEq K] [LinearOrder V] (limit : Nat)
    (calls : List (LimitedMapCall K V)) :
    (∀ s, run (orFail step) (some (start limit : LimitedMap K V)) calls = some s →
      Inverse s.map s.rmap) ∧
    (AllSteps (orFail step) Keeps (some (start limit : LimitedMap K V)) calls ↔
      AllSteps (orFail step) HasRoom (some (start limit)) calls) := by
  refine ⟨fun s reached => ?_, fun keeps => ?_, fun room => ?_⟩
  · exact orFail_invariant (I := fun s => Inverse s.map s.rmap)
      (fun s call s' inverse done => step_inverse inverse done)
      (sound_start limit _ rfl).1 reached
  · exact keeps.of_invariant (I := Sound) (fun s call sound keeps => sound.step keeps)
      (fun s call sound => (keeps_iff_of_sound sound).mp) (sound_start limit)
  · exact room.of_invariant (I := Sound)
      (fun s call sound room => sound.step ((keeps_iff_of_sound sound).mpr room))
      (fun s call sound => (keeps_iff_of_sound sound).mpr) (sound_start limit)

open LimitedMap in
/-- Two entries with a limit of two: the first one is evicted. -/
theorem limitedMap_evicts_early :
    ¬ AllSteps (orFail step) Keeps (some (start 2 : LimitedMap Nat Nat)) [.insert 1 1, .insert 2 2] := by
  rintro ⟨-, keeps, -⟩
  obtain ⟨after, done, -, best⟩ := keeps _ rfl
  have kept := best.size
  obtain rfl := Option.some.inj done
  exact absurd kept (by decide)

end Esbcoin
