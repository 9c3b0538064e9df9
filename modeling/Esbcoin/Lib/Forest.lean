import Mathlib.Data.Option.Basic
import Mathlib.Order.Basic

/-!
# Trees by their parents

Nodes with a parent, or with none at the bottom, and a height that falls by one at each step down.
-/

universe u

/-- A forest, by its parents; a node without one is at height 0. -/
structure Forest (α : Type u) where
  parent : α → Option α
  height : α → Nat
  above : ∀ {a b}, parent a = some b → height a = height b + 1
  root : ∀ {a}, parent a = none → height a = 0

namespace Forest

variable {α : Type u} (f : Forest α) {a b c : α} {n m h : Nat}

/-- Follow the parents so many times. -/
def up : Nat → α → Option α
  | 0, a => some a
  | n + 1, a => (f.parent a).bind (up n)

/-- The node is the other or below it on its way down. -/
def Ancestor (b a : α) : Prop := ∃ n, f.up n a = some b

/-- The ancestor at a height. -/
def atHeight (h : Nat) (a : α) : Option α :=
  if h ≤ f.height a then f.up (f.height a - h) a else none

theorem up_add (n m : Nat) (a : α) : f.up (n + m) a = (f.up n a).bind (f.up m) := by
  induction n generalizing a with
  | zero => rw [Nat.zero_add, up, Option.bind_some]
  | succ n ih =>
    rw [Nat.succ_add, up, up]
    cases f.parent a with
    | none => rfl
    | some b => exact ih b

theorem up_one (a : α) : f.up 1 a = f.parent a := by
  rw [up]
  cases f.parent a with
  | none => rfl
  | some b => rfl

theorem up_succ (n : Nat) (a : α) : f.up (n + 1) a = (f.up n a).bind f.parent := by
  rw [up_add]
  congr 1
  funext b
  exact f.up_one b

variable {f}

theorem height_of_up (here : f.up n a = some b) : f.height b + n = f.height a := by
  induction n generalizing a with
  | zero =>
    obtain rfl := Option.some.inj here
    rfl
  | succ n ih =>
    obtain ⟨c, parent, rest⟩ := Option.bind_eq_some_iff.mp here
    rw [f.above parent, ← ih rest, Nat.add_assoc]

theorem exists_parent (positive : 0 < f.height a) : ∃ b, f.parent a = some b := by
  cases parent : f.parent a with
  | none =>
    rw [f.root parent] at positive
    exact absurd positive (Nat.lt_irrefl 0)
  | some b => exact ⟨b, rfl⟩

theorem exists_up (below : n ≤ f.height a) : ∃ b, f.up n a = some b := by
  induction n generalizing a with
  | zero => exact ⟨a, rfl⟩
  | succ n ih =>
    obtain ⟨b, parent⟩ := exists_parent (Nat.lt_of_lt_of_le (Nat.succ_pos n) below)
    have lower := f.above parent
    obtain ⟨c, rest⟩ := ih (show n ≤ f.height b by omega)
    exact ⟨c, by rw [up, parent, Option.bind_some, rest]⟩

theorem Ancestor.refl (a : α) : f.Ancestor a a := ⟨0, rfl⟩

theorem Ancestor.trans (first : f.Ancestor c b) (second : f.Ancestor b a) : f.Ancestor c a := by
  obtain ⟨n, first⟩ := first
  obtain ⟨m, second⟩ := second
  exact ⟨m + n, by rw [up_add, second, Option.bind_some, first]⟩

theorem Ancestor.height_le (ancestor : f.Ancestor b a) : f.height b ≤ f.height a := by
  obtain ⟨n, here⟩ := ancestor
  have heights := height_of_up here
  omega

theorem ancestor_of_parent (parent : f.parent a = some b) : f.Ancestor b a :=
  ⟨1, by rw [up_one, parent]⟩

theorem atHeight_eq_some : f.atHeight h a = some b ↔ f.Ancestor b a ∧ f.height b = h := by
  unfold atHeight
  constructor
  · intro here
    split at here
    · rename_i below
      have heights := height_of_up here
      exact ⟨⟨_, here⟩, by omega⟩
    · cases here
  · rintro ⟨⟨n, here⟩, rfl⟩
    have heights := height_of_up here
    rw [if_pos (by omega), show f.height a - f.height b = n by omega, here]

variable (f) in
/-- The highest ancestors, so many, from below. -/
def highest : Nat → α → List α
  | 0, _ => []
  | n + 1, a => ((f.parent a).map (highest n)).getD [] ++ [a]

variable (f) in
/-- The highest node below two. -/
structure Meet (c a b : α) : Prop where
  left : f.Ancestor c a
  right : f.Ancestor c b
  highest : ∀ d, f.Ancestor d a → f.Ancestor d b → f.Ancestor d c

theorem exists_atHeight (below : h ≤ f.height a) : ∃ b, f.atHeight h a = some b := by
  rw [atHeight, if_pos below]
  exact exists_up (Nat.sub_le _ _)

theorem atHeight_self (a : α) : f.atHeight (f.height a) a = some a :=
  atHeight_eq_some.mpr ⟨.refl a, rfl⟩

theorem Ancestor.unique (first : f.Ancestor b a) (second : f.Ancestor c a)
    (level : f.height b = f.height c) : b = c := by
  have here := atHeight_eq_some.mpr ⟨first, level⟩
  rw [atHeight_eq_some.mpr ⟨second, rfl⟩] at here
  exact (Option.some.inj here).symm

/-- Of two ancestors the lower is the other's. -/
theorem Ancestor.of_le (first : f.Ancestor b a) (second : f.Ancestor c a)
    (level : f.height b ≤ f.height c) : f.Ancestor b c := by
  obtain ⟨b', here⟩ := exists_atHeight level
  obtain ⟨ancestor, height⟩ := atHeight_eq_some.mp here
  rw [first.unique (ancestor.trans second) height.symm]
  exact ancestor

theorem Ancestor.below_parent (ancestor : f.Ancestor b a) (other : b ≠ a) :
    ∃ c, f.parent a = some c ∧ f.Ancestor b c := by
  obtain ⟨n, here⟩ := ancestor
  cases n with
  | zero => exact absurd (Option.some.inj here).symm other
  | succ n =>
    obtain ⟨c, parent, rest⟩ := Option.bind_eq_some_iff.mp here
    exact ⟨c, parent, n, rest⟩

/-- The ancestors further down are those of an ancestor. -/
theorem atHeight_of_ancestor (ancestor : f.Ancestor b a) (below : h ≤ f.height b) :
    f.atHeight h a = f.atHeight h b := by
  obtain ⟨c, here⟩ := exists_atHeight below
  obtain ⟨lower, height⟩ := atHeight_eq_some.mp here
  rw [here]
  exact atHeight_eq_some.mpr ⟨lower.trans ancestor, height⟩

/-- A node at height 0 has no ancestor but itself. -/
theorem exists_root (a : α) : ∃ r, f.Ancestor r a ∧ f.height r = 0 := by
  obtain ⟨r, here⟩ := exists_atHeight (Nat.zero_le (f.height a))
  exact ⟨r, atHeight_eq_some.mp here⟩

/-! ### The highest ancestors -/

theorem highest_succ (parent : f.parent a = some b) (n : Nat) :
    f.highest (n + 1) a = f.highest n b ++ [a] := by
  rw [highest, parent]
  rfl

theorem highest_add (here : f.up m a = some b) (n : Nat) :
    f.highest (n + m) a = f.highest n b ++ f.highest m a := by
  induction m generalizing a with
  | zero =>
    obtain rfl := Option.some.inj here
    rw [Nat.add_zero, highest, List.append_nil]
  | succ m ih =>
    obtain ⟨c, parent, rest⟩ := Option.bind_eq_some_iff.mp here
    rw [← Nat.add_assoc, highest_succ parent, highest_succ parent, ih rest, List.append_assoc]

theorem mem_highest : b ∈ f.highest n a ↔ f.Ancestor b a ∧ f.height a < f.height b + n := by
  induction n generalizing a with
  | zero =>
    rw [highest, List.mem_nil_iff, false_iff]
    rintro ⟨ancestor, above⟩
    exact absurd ancestor.height_le (by omega)
  | succ n ih =>
    have self : b = a → f.Ancestor b a ∧ f.height a < f.height b + (n + 1) := by
      rintro rfl
      exact ⟨.refl b, by omega⟩
    rw [highest, List.mem_append, List.mem_singleton]
    cases parent : f.parent a with
    | none =>
      refine ⟨fun member => self (member.resolve_left List.not_mem_nil), fun ⟨ancestor, _⟩ => ?_⟩
      by_contra other
      obtain ⟨c, parent', -⟩ := ancestor.below_parent fun same => other (Or.inr same)
      rw [parent] at parent'
      cases parent'
    | some c =>
      have level := f.above parent
      rw [Option.map_some, Option.getD_some, ih]
      constructor
      · rintro (⟨ancestor, above⟩ | same)
        · exact ⟨ancestor.trans (ancestor_of_parent parent), by omega⟩
        · exact self same
      rintro ⟨ancestor, above⟩
      by_cases same : b = a
      · exact Or.inr same
      · obtain ⟨c', parent', lower⟩ := ancestor.below_parent same
        obtain rfl := Option.some.inj (parent.symm.trans parent')
        exact Or.inl ⟨lower, by omega⟩

theorem pairwise_highest (n : Nat) (a : α) :
    (f.highest n a).Pairwise fun b c => f.height b < f.height c := by
  induction n generalizing a with
  | zero => exact List.Pairwise.nil
  | succ n ih =>
    rw [highest]
    cases parent : f.parent a with
    | none => exact List.pairwise_singleton _ a
    | some c =>
      rw [Option.map_some, Option.getD_some, List.pairwise_append]
      refine ⟨ih c, List.pairwise_singleton _ a, fun b member d last => ?_⟩
      obtain rfl := List.mem_singleton.mp last
      have below := (mem_highest.mp member).1.height_le
      have level := f.above parent
      omega

/-! ### The highest common ancestor -/

theorem Meet.self (ancestor : f.Ancestor b a) : f.Meet b a b :=
  ⟨ancestor, .refl b, fun _ _ lower => lower⟩

/-- The parents of two nodes that differ at one height have the nodes' meet. -/
theorem Meet.of_parents {a' b' : α} (meet : f.Meet c a' b') (parent : f.parent a = some a')
    (parent' : f.parent b = some b') (level : f.height a = f.height b) (other : a ≠ b) :
    f.Meet c a b := by
  refine ⟨meet.left.trans (ancestor_of_parent parent),
    meet.right.trans (ancestor_of_parent parent'), fun d first second => ?_⟩
  have lower : d ≠ a ∧ d ≠ b := by
    constructor
    · rintro rfl
      exact other (second.unique (.refl b) level)
    · rintro rfl
      exact other ((first.unique (.refl a) level.symm).symm)
  obtain ⟨a'', same, first⟩ := first.below_parent lower.1
  obtain ⟨b'', same', second⟩ := second.below_parent lower.2
  obtain rfl := Option.some.inj (parent.symm.trans same)
  obtain rfl := Option.some.inj (parent'.symm.trans same')
  exact meet.highest d first second

/-- A node and an ancestor of the other at its height have the meet of the two. -/
theorem Meet.of_level {b' : α} (meet : f.Meet c a b') (ancestor : f.Ancestor b' b)
    (level : f.height b' = f.height a) : f.Meet c a b := by
  refine ⟨meet.left, meet.right.trans ancestor, fun d first second => meet.highest d first ?_⟩
  exact second.of_le ancestor (level ▸ first.height_le)

theorem Meet.symm (meet : f.Meet c a b) : f.Meet c b a :=
  ⟨meet.right, meet.left, fun d first second => meet.highest d second first⟩

end Forest
