import Mathlib.Data.Finset.Basic
import Mathlib.Logic.Relation

/-!
# Groups and their components

Elements are linked when a chain of groups leads from one to the other. Blocks that are the
components of some groups stay the components when a group comes in and is merged with the blocks
that it meets (`Components.merge`).
-/

universe u

namespace Linked

variable {α : Type u} {groups : List (Finset α)} {blocks : Set (Finset α)} {a b : α}

/-- The elements are in one of the groups. -/
def Together (groups : List (Finset α)) (a b : α) : Prop := ∃ g ∈ groups, a ∈ g ∧ b ∈ g

/-- A chain of groups leads from one element to the other. -/
def Chained (groups : List (Finset α)) : α → α → Prop := Relation.EqvGen (Together groups)

/-- The blocks are the components of the groups. -/
structure Components (groups : List (Finset α)) (blocks : Set (Finset α)) : Prop where
  block : ∀ B ∈ blocks, ∀ a ∈ B, ∀ b, b ∈ B ↔ Chained groups a b
  covered : ∀ g ∈ groups, ∀ a ∈ g, ∃ B ∈ blocks, a ∈ B
  within : ∀ B ∈ blocks, ∀ a ∈ B, ∃ g ∈ groups, a ∈ g
  full : ∀ B ∈ blocks, ∃ g ∈ groups, g ⊆ B

theorem Chained.symm (chained : Chained groups a b) : Chained groups b a :=
  Relation.EqvGen.symm _ _ chained

theorem Chained.trans {c : α} (first : Chained groups a b) (second : Chained groups b c) :
    Chained groups a c :=
  Relation.EqvGen.trans _ _ _ first second

theorem chained_of_mem {g : Finset α} (member : g ∈ groups) (left : a ∈ g) (right : b ∈ g) :
    Chained groups a b :=
  Relation.EqvGen.rel _ _ ⟨g, member, left, right⟩

theorem eqvGen_of_steps {r r' : α → α → Prop}
    (steps : ∀ a b, r a b → Relation.EqvGen r' a b) (chained : Relation.EqvGen r a b) :
    Relation.EqvGen r' a b := by
  induction chained with
  | rel a b step => exact steps a b step
  | refl a => exact .refl a
  | symm a b _ ih => exact ih.symm
  | trans a b c _ _ first second => exact first.trans _ _ _ second

/-- Further groups break no chain. -/
theorem Chained.append (chained : Chained groups a b) (more : List (Finset α)) :
    Chained (groups ++ more) a b := by
  apply eqvGen_of_steps _ chained
  rintro a b ⟨g, member, left, right⟩
  exact chained_of_mem (List.mem_append_left more member) left right

/-- No chain leaves a set that every group that meets it is in. -/
theorem Chained.mem_iff {S : Set α} (closed : ∀ g ∈ groups, ∀ a ∈ g, ∀ b ∈ g, a ∈ S → b ∈ S)
    (chained : Chained groups a b) : a ∈ S ↔ b ∈ S := by
  induction chained with
  | rel a b step =>
    obtain ⟨g, member, left, right⟩ := step
    exact ⟨closed g member a left b right, closed g member b right a left⟩
  | refl a => exact Iff.rfl
  | symm a b _ ih => exact ih.symm
  | trans a b c _ _ first second => exact first.trans second

theorem components_nil : Components ([] : List (Finset α)) ∅ where
  block := by simp
  covered := by simp
  within := by simp
  full := by simp

/-- Blocks with a common element are one block. -/
theorem Components.eq_of_mem (components : Components groups blocks) {B B' : Finset α}
    (member : B ∈ blocks) (member' : B' ∈ blocks) (left : a ∈ B) (right : a ∈ B') : B = B' := by
  ext b
  rw [components.block B member a left b, components.block B' member' a right b]

/-- Two elements are in one block when one is in a group and a chain leads to the other. -/
theorem Components.exists_block_iff (components : Components groups blocks) :
    (∃ B ∈ blocks, a ∈ B ∧ b ∈ B) ↔ (∃ g ∈ groups, a ∈ g) ∧ Chained groups a b := by
  constructor
  · rintro ⟨B, member, left, right⟩
    exact ⟨components.within B member a left, (components.block B member a left b).mp right⟩
  · rintro ⟨⟨g, inside, left⟩, chained⟩
    obtain ⟨B, member, here⟩ := components.covered g inside a left
    exact ⟨B, member, here, (components.block B member a here b).mpr chained⟩

/-- A group comes in: it is merged with the blocks that it meets. -/
theorem Components.merge (components : Components groups blocks) {g merged : Finset α}
    (mem_merged : ∀ a, a ∈ merged ↔ a ∈ g ∨ ∃ B ∈ blocks, (∃ b ∈ B, b ∈ g) ∧ a ∈ B) :
    Components (groups ++ [g]) (insert merged {B | B ∈ blocks ∧ ∀ b ∈ B, b ∉ g}) := by
  have mem_groups : ∀ d, d ∈ groups ++ [g] ↔ d ∈ groups ∨ d = g := by simp
  have group : ∀ a ∈ g, ∀ b ∈ g, Chained (groups ++ [g]) a b := fun a left b right =>
    chained_of_mem ((mem_groups g).mpr (Or.inr rfl)) left right
  -- Everything merged is linked to an element of the group.
  have linked : ∀ a ∈ merged, ∃ c ∈ g, Chained (groups ++ [g]) a c := by
    intro a inside
    rcases (mem_merged a).mp inside with here | ⟨B, member, ⟨c, common, new⟩, here⟩
    · exact ⟨a, here, Relation.EqvGen.refl a⟩
    · exact ⟨c, new, ((components.block B member a here c).mp common).append _⟩
  have closed : ∀ d ∈ groups ++ [g], ∀ a ∈ d, ∀ b ∈ d, a ∈ merged → b ∈ merged := by
    intro d member a left b right inside
    rcases (mem_groups d).mp member with old | rfl
    · obtain ⟨B, block, here⟩ := components.covered d old a left
      have there := (components.block B block a here b).mpr (chained_of_mem old left right)
      rcases (mem_merged a).mp inside with new | ⟨B', block', meets, here'⟩
      · exact (mem_merged b).mpr (Or.inr ⟨B, block, ⟨a, here, new⟩, there⟩)
      · obtain rfl := components.eq_of_mem block block' here here'
        exact (mem_merged b).mpr (Or.inr ⟨B, block, meets, there⟩)
    · exact (mem_merged b).mpr (Or.inl right)
  refine ⟨fun B member a left b => ?_, fun d member a left => ?_, fun B member a left => ?_,
    fun B member => ?_⟩
  · rcases Set.mem_insert_iff.mp member with rfl | ⟨old, apart⟩
    · constructor
      · intro right
        obtain ⟨c, new, first⟩ := linked a left
        obtain ⟨c', new', second⟩ := linked b right
        exact first.trans ((group c new c' new').trans second.symm)
      · intro chained
        exact (chained.mem_iff (S := (B : Set α)) closed).mp left
    constructor
    · intro right
      exact ((components.block B old a left b).mp right).append _
    intro chained
    refine (chained.mem_iff (S := (B : Set α)) ?_).mp left
    intro d member x first y second inside
    rcases (mem_groups d).mp member with older | rfl
    · exact (components.block B old x inside y).mpr (chained_of_mem older first second)
    · exact absurd first (apart x inside)
  · have merges : a ∈ merged → ∃ B ∈ insert merged {B | B ∈ blocks ∧ ∀ b ∈ B, b ∉ g}, a ∈ B :=
      fun inside => ⟨merged, Set.mem_insert _ _, inside⟩
    rcases (mem_groups d).mp member with old | rfl
    · obtain ⟨B, block, here⟩ := components.covered d old a left
      by_cases meets : ∃ b ∈ B, b ∈ g
      · exact merges ((mem_merged a).mpr (Or.inr ⟨B, block, meets, here⟩))
      · have apart : ∀ b ∈ B, b ∉ g := fun b inside new => meets ⟨b, inside, new⟩
        exact ⟨B, Set.mem_insert_of_mem _ ⟨block, apart⟩, here⟩
    · exact merges ((mem_merged a).mpr (Or.inl left))
  · rcases Set.mem_insert_iff.mp member with rfl | ⟨old, -⟩
    · rcases (mem_merged a).mp left with new | ⟨B', block, -, here⟩
      · exact ⟨g, (mem_groups g).mpr (Or.inr rfl), new⟩
      · obtain ⟨d, inside, there⟩ := components.within B' block a here
        exact ⟨d, (mem_groups d).mpr (Or.inl inside), there⟩
    · obtain ⟨d, inside, there⟩ := components.within B old a left
      exact ⟨d, (mem_groups d).mpr (Or.inl inside), there⟩
  · rcases Set.mem_insert_iff.mp member with rfl | ⟨old, -⟩
    · exact ⟨g, (mem_groups g).mpr (Or.inr rfl), fun a new => (mem_merged a).mpr (Or.inl new)⟩
    · obtain ⟨d, inside, subset⟩ := components.full B old
      exact ⟨d, (mem_groups d).mpr (Or.inl inside), subset⟩

end Linked
