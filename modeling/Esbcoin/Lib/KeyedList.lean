import Mathlib.Data.List.Nodup

/-!
# Lists with a key

A vector whose elements are found by a key: `find` is the first element with the key, `upsert`
changes that element or appends a new one. `upsert` keeps the order of the list, which a map
would not.
-/

universe u v

namespace KeyedList

variable {α : Type u} {κ : Type v} [DecidableEq κ] (key : α → κ)

/-- The first element with the key `k`. -/
def find (k : κ) (l : List α) : Option α := l.find? (fun a => key a = k)

/-- Change the first element with the key `k`, or append `new`. -/
def upsert (k : κ) (update : α → α) (new : α) : List α → List α
  | [] => [new]
  | a :: rest => if key a = k then update a :: rest else a :: upsert k update new rest

/-- Change the first element with the key `k`. -/
def change (k : κ) (update : α → α) : List α → List α
  | [] => []
  | a :: rest => if key a = k then update a :: rest else a :: change k update rest

/-- Take the first element with the key `k` out. -/
def remove (k : κ) (l : List α) : List α := l.eraseP (fun a => key a = k)

variable {key} {k : κ} {update : α → α} {new : α}

@[simp] theorem find_nil : find key k ([] : List α) = none := rfl

theorem find_cons (a : α) (l : List α) :
    find key k (a :: l) = if key a = k then some a else find key k l := by
  by_cases equal : key a = k
  · simp [find, equal]
  · simp [find, equal]

theorem key_of_find {l : List α} {a : α} (found : find key k l = some a) : key a = k := by
  simpa using List.find?_some found

section

variable (keeps : ∀ a, key a = k → key (update a) = k)
include keeps

theorem find_upsert (hnew : key new = k) (l : List α) (k' : κ) :
    find key k' (upsert key k update new l) =
      if k' = k then some (((find key k l).map update).getD new) else find key k' l := by
  induction l with
  | nil =>
    by_cases equal : k' = k
    · subst equal
      simp [upsert, find_cons, hnew]
    · simp [upsert, find_cons, hnew, equal, Ne.symm equal]
  | cons a l ih =>
    unfold upsert
    by_cases here : key a = k
    · rw [if_pos here, find_cons, keeps a here, find_cons, find_cons, if_pos here, here]
      by_cases equal : k' = k
      · simp [equal]
      · simp [equal, Ne.symm equal]
    rw [if_neg here, find_cons, ih, find_cons, find_cons, if_neg here]
    by_cases equal : k' = k
    · subst equal
      simp [here]
    · simp [equal]

theorem mem_keys_upsert (hnew : key new = k) (l : List α) (k' : κ) :
    k' ∈ (upsert key k update new l).map key ↔ k' = k ∨ k' ∈ l.map key := by
  induction l with
  | nil => simp [upsert, hnew]
  | cons a l ih =>
    unfold upsert
    by_cases here : key a = k
    · rw [if_pos here]
      simp [keeps a here, here]
    · rw [if_neg here, List.map_cons, List.mem_cons, ih, List.map_cons, List.mem_cons]
      tauto

theorem nodup_upsert (hnew : key new = k) {l : List α} (nodup : (l.map key).Nodup) :
    ((upsert key k update new l).map key).Nodup := by
  induction l with
  | nil => simp [upsert]
  | cons a l ih =>
    obtain ⟨fresh, rest⟩ := List.nodup_cons.mp nodup
    unfold upsert
    by_cases here : key a = k
    · rw [if_pos here, List.map_cons, keeps a here, ← here]
      exact nodup
    · rw [if_neg here, List.map_cons, List.nodup_cons, mem_keys_upsert keeps hnew]
      exact ⟨not_or.mpr ⟨here, fresh⟩, ih rest⟩

end

/-- With distinct keys, the elements are the ones found. -/
theorem mem_iff_find {l : List α} (nodup : (l.map key).Nodup) (a : α) :
    a ∈ l ↔ find key (key a) l = some a := by
  constructor
  · intro member
    induction l with
    | nil => cases member
    | cons b l ih =>
      obtain ⟨fresh, rest⟩ := List.nodup_cons.mp nodup
      rw [find_cons]
      rcases List.mem_cons.mp member with rfl | member
      · rw [if_pos rfl]
      · have apart : key b ≠ key a := fun equal => fresh (equal ▸ List.mem_map_of_mem member)
        rw [if_neg apart]
        exact ih rest member
  · exact List.mem_of_find?_eq_some

/-- An element found can be moved to the front. -/
theorem perm_of_find {l : List α} {a : α} (found : find key k l = some a) :
    l.Perm (a :: remove key k l) := by
  induction l with
  | nil => cases found
  | cons b l ih =>
    rw [find_cons] at found
    by_cases here : key b = k
    · rw [if_pos here, Option.some_inj] at found
      subst found
      simp [remove, here]
    rw [if_neg here] at found
    have kept : remove key k (b :: l) = b :: remove key k l := by simp [remove, here]
    rw [kept]
    exact ((ih found).cons b).trans (List.Perm.swap a b _)

theorem change_cons (a : α) (l : List α) : change key k update (a :: l) =
    if key a = k then update a :: l else a :: change key k update l := rfl

/-- What an update leaves alone is the same all over the list. -/
theorem map_change {β : Type*} {read : α → β} (keeps : ∀ a, read (update a) = read a) (l : List α) :
    (change key k update l).map read = l.map read := by
  induction l with
  | nil => rfl
  | cons a l ih =>
    rw [change_cons]
    by_cases here : key a = k
    · rw [if_pos here, List.map_cons, keeps, List.map_cons]
    · rw [if_neg here, List.map_cons, ih, List.map_cons]

/-- What holds of all elements still does behind a change that keeps it in the element found. -/
theorem forall_mem_change {P : α → Prop} {l : List α} (all : ∀ a ∈ l, P a)
    (keeps : ∀ a, find key k l = some a → P (update a)) : ∀ a ∈ change key k update l, P a := by
  induction l with
  | nil => exact all
  | cons b l ih =>
    obtain ⟨first, rest⟩ := List.forall_mem_cons.mp all
    rw [find_cons] at keeps
    rw [change_cons]
    by_cases here : key b = k
    · rw [if_pos here] at keeps
      rw [if_pos here]
      exact List.forall_mem_cons.mpr ⟨keeps b rfl, rest⟩
    · rw [if_neg here] at keeps
      rw [if_neg here]
      exact List.forall_mem_cons.mpr ⟨first, ih rest keeps⟩

/-- A change that `read` does not see in the element found is not seen in the list. -/
theorem map_change_of_found {β : Type*} {read : α → β} {l : List α}
    (same : ∀ a, find key k l = some a → read (update a) = read a) :
    (change key k update l).map read = l.map read := by
  induction l with
  | nil => rfl
  | cons a l ih =>
    rw [find_cons] at same
    rw [change_cons]
    by_cases here : key a = k
    · rw [if_pos here] at same
      rw [if_pos here, List.map_cons, List.map_cons, same a rfl]
    · rw [if_neg here] at same
      rw [if_neg here, List.map_cons, List.map_cons, ih same]

theorem find_change (keeps : ∀ a, key (update a) = key a) (l : List α) (k' : κ) :
    find key k' (change key k update l) =
      if k' = k then (find key k l).map update else find key k' l := by
  induction l with
  | nil => exact (ite_self none).symm
  | cons a l ih =>
    rw [change_cons]
    by_cases here : key a = k
    · rw [if_pos here, find_cons, keeps, find_cons, find_cons, if_pos here, here]
      by_cases equal : k' = k
      · rw [if_pos equal, if_pos equal.symm, Option.map_some]
      · rw [if_neg equal, if_neg (Ne.symm equal), if_neg (Ne.symm equal)]
    rw [if_neg here, find_cons, ih, find_cons, find_cons, if_neg here]
    by_cases equal : k' = k
    · subst equal
      rw [if_neg here, if_pos rfl, if_pos rfl]
    · rw [if_neg equal, if_neg equal]

/-! Two lists that are alike in what `read` gives, which tells the key. -/

section Alike

variable {β : Type*} {read : α → β} {l l' : List α}

section

variable (tells : ∀ a b, read a = read b → key a = key b)
include tells

theorem map_find_of_alike (alike : l.map read = l'.map read) :
    (find key k l).map read = (find key k l').map read := by
  induction l generalizing l' with
  | nil =>
    cases l' with
    | nil => rfl
    | cons b l' => cases alike
  | cons a l ih =>
    cases l' with
    | nil => cases alike
    | cons b l' =>
      obtain ⟨first, rest⟩ := List.cons.inj alike
      rw [find_cons, find_cons, tells a b first]
      by_cases here : key b = k
      · rw [if_pos here, if_pos here, Option.map_some, Option.map_some, first]
      · rw [if_neg here, if_neg here]
        exact ih rest

theorem map_change_of_alike (alike : l.map read = l'.map read)
    (same : ∀ a b, find key k l = some a → find key k l' = some b → read a = read b →
      read (update a) = read (update b))
    :
    (change key k update l).map read = (change key k update l').map read := by
  induction l generalizing l' with
  | nil =>
    cases l' with
    | nil => rfl
    | cons b l' => cases alike
  | cons a l ih =>
    cases l' with
    | nil => cases alike
    | cons b l' =>
      obtain ⟨first, rest⟩ := List.cons.inj alike
      rw [find_cons, find_cons, tells a b first] at same
      rw [change_cons, change_cons, tells a b first]
      by_cases here : key b = k
      · rw [if_pos here, if_pos here] at same
        rw [if_pos here, if_pos here, List.map_cons, List.map_cons, same a b rfl rfl first, rest]
      · rw [if_neg here, if_neg here] at same
        rw [if_neg here, if_neg here, List.map_cons, List.map_cons, first, ih rest same]

theorem map_remove_of_alike (alike : l.map read = l'.map read) :
    (remove key k l).map read = (remove key k l').map read := by
  unfold remove
  induction l generalizing l' with
  | nil =>
    cases l' with
    | nil => rfl
    | cons b l' => cases alike
  | cons a l ih =>
    cases l' with
    | nil => cases alike
    | cons b l' =>
      obtain ⟨first, rest⟩ := List.cons.inj alike
      by_cases here : key b = k
      · rw [List.eraseP_cons_of_pos (by simp [tells a b first, here]),
          List.eraseP_cons_of_pos (by simp [here]), rest]
      · rw [List.eraseP_cons_of_neg (by simp [tells a b first, here]),
          List.eraseP_cons_of_neg (by simp [here]), List.map_cons, List.map_cons, first, ih rest]

end

end Alike

/-- Two changes under one key are one. -/
theorem change_change {first : α → α} (keeps : ∀ a, key (first a) = key a) (l : List α) :
    change key k update (change key k first l) = change key k (fun a => update (first a)) l := by
  induction l with
  | nil => rfl
  | cons a l ih =>
    rw [change_cons, change_cons]
    by_cases here : key a = k
    · rw [if_pos here, if_pos here, change_cons, if_pos ((keeps a).trans here)]
    · rw [if_neg here, if_neg here, change_cons, if_neg here, ih]

/-- The element found by one key is changed under another key, if that one is distinct. -/
theorem change_of_find {κ' : Type*} [DecidableEq κ'] {key' : α → κ'} {l : List α} {a : α}
    (nodup : (l.map key').Nodup) (found : find key k l = some a) :
    change key k update l = change key' (key' a) update l := by
  induction l with
  | nil => cases found
  | cons b l ih =>
    obtain ⟨fresh, rest⟩ := List.nodup_cons.mp nodup
    rw [find_cons] at found
    rw [change_cons, change_cons]
    by_cases here : key b = k
    · rw [if_pos here, Option.some_inj] at found
      subst found
      rw [if_pos here, if_pos rfl]
    rw [if_neg here] at found
    have inside : a ∈ l := List.mem_of_find?_eq_some found
    have apart : key' b ≠ key' a := fun equal => fresh (equal ▸ List.mem_map_of_mem inside)
    rw [if_neg here, if_neg apart, ih rest found]

/-- With distinct keys, an element of the changed list is the one that was changed, or an element
with another key. -/
theorem mem_change {l : List α} (nodup : (l.map key).Nodup) {b : α}
    (member : b ∈ change key k update l) :
    (∃ a, find key k l = some a ∧ b = update a) ∨ (b ∈ l ∧ key b ≠ k) := by
  induction l with
  | nil => cases member
  | cons a l ih =>
    obtain ⟨fresh, rest⟩ := List.nodup_cons.mp nodup
    unfold change at member
    rw [find_cons]
    by_cases here : key a = k
    · rw [if_pos here] at member
      rw [if_pos here]
      rcases List.mem_cons.mp member with changed | inside
      · exact Or.inl ⟨a, rfl, changed⟩
      · refine Or.inr ⟨List.mem_cons_of_mem a inside, fun equal => ?_⟩
        rw [here, ← equal] at fresh
        exact fresh (List.mem_map_of_mem inside)
    rw [if_neg here] at member
    rw [if_neg here]
    rcases List.mem_cons.mp member with rfl | inside
    · exact Or.inr ⟨List.mem_cons_self, here⟩
    · rcases ih rest inside with changed | ⟨inside, other⟩
      · exact Or.inl changed
      · exact Or.inr ⟨List.mem_cons_of_mem a inside, other⟩

theorem nodup_remove {l : List α} (nodup : (l.map key).Nodup) :
    ((remove key k l).map key).Nodup :=
  (List.eraseP_sublist.map key).nodup nodup

/-- With distinct keys, what is left are the elements with another key. -/
theorem mem_remove {l : List α} (nodup : (l.map key).Nodup) (a : α) :
    a ∈ remove key k l ↔ a ∈ l ∧ key a ≠ k := by
  cases found : find key k l with
  | none =>
    have absent : ∀ b ∈ l, key b ≠ k := by
      intro b member equal
      have here := List.find?_eq_none.mp found b member
      simp [equal] at here
    have same : remove key k l = l := List.eraseP_of_forall_not (by simpa using absent)
    rw [same]
    exact ⟨fun member => ⟨member, absent a member⟩, And.left⟩
  | some b =>
    have moved := perm_of_find found
    have apart := (moved.map key).nodup_iff.mp nodup
    rw [List.map_cons, List.nodup_cons] at apart
    have hb : key b = k := key_of_find found
    rw [moved.mem_iff, List.mem_cons]
    constructor
    · intro member
      exact ⟨Or.inr member, fun equal => apart.1 (hb.trans equal.symm ▸ List.mem_map_of_mem member)⟩
    · rintro ⟨rfl | member, other⟩
      · exact absurd hb other
      · exact member

end KeyedList
